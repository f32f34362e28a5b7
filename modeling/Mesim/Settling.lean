import Mesim.Conversations
import Mesim.Framing
import Mesim.Retransmission

/-!
How a conversation ends.
A call of send() adds a message and a sweep that comes early changes nothing, so the messages
taken account for every state of an unhurried run. The worth of what is on its way falls with
each arrival; when it is gone, every message is settled.
-/
namespace Mesim.Conversations

open Octets TextCodec Crypto Identity Packet Transport Operations Dispatch Nodes Fragments
open Reassembly FragmentDelivery InFlightTable Answers Collector MeshTransport Outcome

section Sending

variable {C : Suite} {N : Type*} [DecidableEq N] {addr : N → Addr} {name : N → String}
variable {node : N → MeshTransport} {s : Conversation N} {letters : List (Letter N × Phase)}

/-- A step that only a node's counters notice. -/
theorem Tracks.idle (h : Tracks C addr name node s letters) (i : N) (out : Outcome)
    (hsame : SameHandshakes (s.network.node i) out.state)
    (hcbs : out.state.ackCbs = (s.network.node i).ackCbs)
    (hcounter : (s.network.node i).msgIdCounter ≤ out.state.msgIdCounter)
    (hbuffers : out.state.fragBufs = (s.network.node i).fragBufs)
    (hentries : out.state.inFlight = (s.network.node i).inFlight) (hquiet : out.effects = []) :
    Tracks C addr name node (act addr s s.network.wire i out) letters := by
  have hpart : ∀ {β : Type} (f : MeshTransport → β), f out.state = f (s.network.node i) →
      ∀ j, f (Function.update s.network.node i out.state j) = f (s.network.node j) := by
    intro β f hf j
    by_cases hj : j = i
    · rw [hj, Function.update_self, hf]
    · rw [Function.update_of_ne hj]
  have hbufs := hpart MeshTransport.fragBufs hbuffers
  have hflight := hpart MeshTransport.inFlight hentries
  constructor
  · intro j
    by_cases hj : j = i
    · subst hj
      simp only [act, Function.update_self]
      exact (h.same j).trans hsame
    · simp only [act, Function.update_of_ne hj]
      exact h.same j
  · intro j
    exact (hpart MeshTransport.ackCbs hcbs j).trans (h.ackCbs j)
  · exact h.taken
  · simp only [act, hquiet, sent, List.filterMap_nil, List.append_nil]
    exact h.wire
  · simp only [act, hquiet, called, List.filter_nil, List.map_nil, List.append_nil]
    exact h.calls
  · exact h.posted
  · intro p hp
    obtain ⟨hmissing, hbuffered, hflying⟩ := h.stands p hp
    refine ⟨hmissing, Buffered.of_get?_eq hbuffered ?_, ?_⟩
    · simp only [act, hbufs]
    · simp only [act, hflight]
      exact hflying
  · exact h.distinct
  · intro p hp
    refine (h.counted p hp).trans_le ?_
    by_cases hi : p.1.taken.sender = i
    · simp only [act, hi, Function.update_self]
      exact hcounter
    · simp only [act, Function.update_of_ne hi]
      exact le_rfl
  · intro j bufKey hget
    simp only [act, hbufs] at hget
    exact h.buffers j bufKey hget
  · intro j m hget
    simp only [act, hflight] at hget
    exact h.entries j m hget
  · exact h.room

theorem toList_range_perm (n : ℕ) : (Finset.range n).toList.Perm (List.range n) := by
  rw [List.perm_ext_iff_of_nodup (Finset.nodup_toList _) List.nodup_range]
  intro k
  rw [Finset.mem_toList, Finset.mem_range, List.mem_range]

omit [DecidableEq N] in
/-- The packets of a message that is taken go on the wire. -/
theorem sent_packets (ℓ : Letter N) (t : MeshTransport) (hopen : t.udpTransport = true) :
    (onWire C addr node (ℓ, .outstanding (Finset.range ℓ.cut.total))).Perm
      (sent (addr ℓ.taken.sender)
        ((ℓ.cut.packets C).flatMap fun pkt => t.sendRaw pkt (addr ℓ.taken.receiver))) := by
  have hraw : (ℓ.cut.packets C).flatMap (fun pkt => t.sendRaw pkt (addr ℓ.taken.receiver)) =
      (ℓ.cut.packets C).map fun pkt => .sendto pkt (addr ℓ.taken.receiver) := by
    rw [← List.flatMap_pure_eq_map]
    simp only [sendRaw, hopen, if_true]
    rfl
  have hsent : sent (addr ℓ.taken.sender)
      ((ℓ.cut.packets C).map fun pkt => .sendto pkt (addr ℓ.taken.receiver)) =
      (ℓ.cut.packets C).map fun pkt => ⟨addr ℓ.taken.sender, addr ℓ.taken.receiver, pkt⟩ := by
    simp only [sent, List.filterMap_map, Function.comp_def, List.filterMap_eq_map']
  have hindex : (List.range ℓ.cut.total).map (ℓ.piece C addr) =
      (ℓ.cut.packets C).map fun pkt => ⟨addr ℓ.taken.sender, addr ℓ.taken.receiver, pkt⟩ := by
    refine List.ext_getElem (by simp [Sending.packets, Sending.total]) fun k hk _ => ?_
    have hlt : k < ℓ.cut.chunks.length := by simpa [Sending.total] using hk
    simp [Sending.packets, Letter.piece, List.getD_eq_getElem?_getD, List.getElem?_eq_getElem hlt]
  rw [hraw, hsent, ← hindex]
  exact (toList_range_perm _).map _

/-- A message that is in flight is one that is not settled. -/
theorem Tracks.underway_eq (h : Tracks C addr name node s letters) (j : N) :
    underway s j =
      (letters.filter fun p => p.2.flying = true ∧ p.1.taken.receiver = j).length := by
  rw [underway, h.taken, List.filter_map, List.length_map]
  refine congrArg List.length (List.filter_congr fun p hp => ?_)
  have hflying := (h.stands p hp).inFlight
  simp only [Function.comp_apply, hflying]
  exact decide_eq_decide.mpr and_comm

theorem send_silent (env : Env) (t : MeshTransport) (peerId : String) (message : Bytes)
    (hraised : (send C env t peerId message).raised ≠ none) :
    (send C env t peerId message).effects = [] ∧
      (send C env t peerId message).state.inFlight = t.inFlight ∧
      t.msgIdCounter ≤ (send C env t peerId message).state.msgIdCounter := by
  cases hsession : t.sessions.get? peerId with
  | none =>
    rw [send_missing C env t peerId message hsession]
    exact ⟨rfl, rfl, le_rfl⟩
  | some session =>
    have hnot : ¬ (t.msgIdCounter < 256 ^ 4 ∧ Framing.packetCount message < 256) := by
      rw [← Framing.sending_total C env t session.sessionKey message, ← sendable_iff]
      exact fun hsendable =>
        hraised ((send_raised_iff C env t peerId message session hsession).mpr hsendable)
    rw [Framing.send_refused C env t peerId message session hsession hnot]
    exact ⟨rfl, rfl, Nat.le_succ _⟩

/-- A session of a node that has only talked since is known to its peer. -/
theorem Tracks.letter (h : Tracks C addr name node s letters) (hacq : Acquainted C addr name node)
    {i j : N} {env : Env} {message : Bytes} {session : SessionInfo}
    (hsession : (s.network.node i).sessions.get? (name j) = some session)
    (hsendable : (sending C env (s.network.node i) session.sessionKey message).Sendable) :
    session.peerAddr = addr j ∧ Posted C addr name node
      ⟨⟨i, j, (s.network.node i).msgIdCounter, message⟩,
        sending C env (s.network.node i) session.sessionKey message⟩ := by
  have hsame := h.same i
  have hbound := hsame.bound (name j)
  rw [bound, bound, hsession] at hbound
  obtain ⟨session₀, hsession₀, heq⟩ := Option.map_eq_some_iff.mp hbound.symm
  simp only [Prod.mk.injEq] at heq
  obtain ⟨haddr, hbyAddr, session', hholds, hkey, hverify⟩ := hacq.session i j session₀ hsession₀
  refine ⟨heq.1.symm.trans haddr, rfl, ⟨session', hholds, hkey.trans heq.2.1, ?_⟩,
    session₀, ⟨hbyAddr, hsession₀⟩, heq.2.1⟩
  rw [hverify, ← hsame.identity]
  refine genuine_sending C env _ _ message ?_ hsendable
  rw [hsame.identity]
  exact hacq.sign i

/-- A message that is taken joins the others, with all its packets on their way. -/
theorem Tracks.begins (h : Tracks C addr name node s letters) (hname : Function.Injective name)
    (hopened : ∀ i, (node i).udpTransport = true) (ℓ : Letter N) (out : Outcome)
    (hid : ℓ.taken.msgId = (s.network.node ℓ.taken.sender).msgIdCounter)
    (hposted : Posted C addr name node ℓ)
    (hsame : SameHandshakes (s.network.node ℓ.taken.sender) out.state)
    (hcbs : out.state.ackCbs = (s.network.node ℓ.taken.sender).ackCbs)
    (hcounter : out.state.msgIdCounter = ℓ.taken.msgId + 1)
    (hbuffers : out.state.fragBufs = (s.network.node ℓ.taken.sender).fragBufs)
    (hothers : ∀ m, m ≠ ℓ.taken.msgId →
      out.state.inFlight.get? m = (s.network.node ℓ.taken.sender).inFlight.get? m)
    (hown : (out.state.inFlight.get? ℓ.taken.msgId).isSome = true)
    (heffects : out.effects = (ℓ.cut.packets C).flatMap fun pkt =>
      (s.network.node ℓ.taken.sender).sendRaw pkt (addr ℓ.taken.receiver))
    (hroom : underway s ℓ.taken.receiver < maxReassemblyBufs) :
    Tracks C addr name node
      { act addr s s.network.wire ℓ.taken.sender out with taken := s.taken ++ [ℓ.taken] }
      (letters ++ [(ℓ, .outstanding (Finset.range ℓ.cut.total))]) := by
  have hopen : (s.network.node ℓ.taken.sender).udpTransport = true :=
    (h.same ℓ.taken.sender).udpTransport.trans (hopened ℓ.taken.sender)
  have hfresh : ∀ p ∈ letters, p.1.taken.sender = ℓ.taken.sender →
      p.1.taken.msgId < ℓ.taken.msgId := by
    intro p hp hsender
    rw [hid, ← hsender]
    exact h.counted p hp
  have hbufs : ∀ j, (Function.update s.network.node ℓ.taken.sender out.state j).fragBufs =
      (s.network.node j).fragBufs := by
    intro j
    by_cases hj : j = ℓ.taken.sender
    · rw [hj, Function.update_self, hbuffers]
    · rw [Function.update_of_ne hj]
  constructor
  · intro j
    by_cases hj : j = ℓ.taken.sender
    · subst hj
      simp only [act, Function.update_self]
      exact (h.same _).trans hsame
    · simp only [act, Function.update_of_ne hj]
      exact h.same j
  · intro j
    by_cases hj : j = ℓ.taken.sender
    · subst hj
      simp only [act, Function.update_self]
      exact hcbs.trans (h.ackCbs _)
    · simp only [act, Function.update_of_ne hj]
      exact h.ackCbs j
  · rw [List.map_append, ← h.taken]
    rfl
  · rw [List.flatMap_append, List.flatMap_singleton]
    simp only [act, heffects]
    exact h.wire.append (sent_packets ℓ _ hopen).symm
  · have hquiet : called ℓ.taken.sender out.effects = [] := by
      rw [heffects, called, List.map_eq_nil_iff, List.filter_eq_nil_iff]
      intro e he
      obtain ⟨pkt, _, hsent⟩ := List.mem_flatMap.mp he
      cases mem_sendRaw _ _ _ _ hsent
      simp
    rw [List.flatMap_append, List.flatMap_singleton]
    simp only [act, hquiet, reported, List.append_nil]
    exact h.calls
  · intro p hp
    rcases List.mem_append.mp hp with hp | hp
    · exact h.posted p hp
    · rw [List.mem_singleton.mp hp]
      exact hposted
  · intro p hp
    rcases List.mem_append.mp hp with hp | hp
    · obtain ⟨hmissing, hbuffered, hflying⟩ := h.stands p hp
      refine ⟨hmissing, Buffered.of_get?_eq hbuffered ?_, ?_⟩
      · simp only [act, hbufs]
      · rw [← hflying]
        by_cases hsender : p.1.taken.sender = ℓ.taken.sender
        · simp only [act, hsender, Function.update_self]
          rw [hothers _ (hfresh p hp hsender).ne]
        · simp only [act, Function.update_of_ne hsender]
    · rw [List.mem_singleton.mp hp]
      refine ⟨?_, ?_, ?_⟩
      · rintro missing hmissing
        cases hmissing
        obtain ⟨_, hreception⟩ := hposted.reception
        have hpos := List.length_pos_iff.mpr hreception.genuine.nonempty
        exact ⟨⟨0, Finset.mem_range.mpr hpos⟩, Finset.Subset.refl _⟩
      · simp only [Phase.kept, Finset.sdiff_self]
        refine .absent ?_
        simp only [act, hbufs]
        by_contra hget
        obtain ⟨p, hp, _, _, hkey⟩ := h.buffers _ _ hget
        simp only [Letter.bufKey, Prod.mk.injEq] at hkey
        exact absurd hkey.2 (hfresh p hp (hname hkey.1)).ne
      · simp only [act, Function.update_self]
        exact hown
  · rw [List.map_append, List.map_singleton, List.nodup_append]
    refine ⟨h.distinct, List.nodup_singleton _, ?_⟩
    intro a ha b hb heq
    obtain ⟨p, hp, rfl⟩ := List.mem_map.mp ha
    rw [List.mem_singleton.mp hb, Prod.mk.injEq] at heq
    exact absurd heq.2 (hfresh p hp heq.1).ne
  · intro p hp
    rcases List.mem_append.mp hp with hp | hp
    · by_cases hsender : p.1.taken.sender = ℓ.taken.sender
      · simp only [act, hsender, Function.update_self]
        rw [hcounter]
        exact (hfresh p hp hsender).trans (Nat.lt_succ_self _)
      · simp only [act, Function.update_of_ne hsender]
        exact h.counted p hp
    · rw [List.mem_singleton.mp hp]
      simp only [act, Function.update_self]
      rw [hcounter]
      exact Nat.lt_succ_self _
  · intro j bufKey hget
    simp only [act, hbufs] at hget
    obtain ⟨p, hp, hrest⟩ := h.buffers j bufKey hget
    exact ⟨p, List.mem_append_left _ hp, hrest⟩
  · intro j m hget
    by_cases hnew : ℓ.taken.sender = j ∧ ℓ.taken.msgId = m
    · exact ⟨_, List.mem_append_right _ (List.mem_singleton_self _), hnew⟩
    · have hold : (s.network.node j).inFlight.get? m ≠ none := by
        by_cases hj : j = ℓ.taken.sender
        · subst hj
          simp only [act, Function.update_self] at hget
          rwa [hothers m fun heq => hnew ⟨rfl, heq.symm⟩] at hget
        · simp only [act, Function.update_of_ne hj] at hget
          exact hget
      obtain ⟨p, hp, hrest⟩ := h.entries j m hold
      exact ⟨p, List.mem_append_left _ hp, hrest⟩
  · intro j
    rw [List.filter_append, List.length_append]
    by_cases hj : ℓ.taken.receiver = j
    · subst hj
      rw [h.underway_eq] at hroom
      have hone := List.length_filter_le (fun p : Letter N × Phase => p.2.flying = true ∧
        p.1.taken.receiver = ℓ.taken.receiver) [(ℓ, .outstanding (Finset.range ℓ.cut.total))]
      rw [List.length_singleton] at hone
      omega
    · simp only [List.filter_cons, hj, and_false, decide_false, List.filter_nil]
      exact h.room j

/-- A call of send() starts a new message, or raises and leaves no trace. -/
theorem Tracks.sends (h : Tracks C addr name node s letters) (hacq : Acquainted C addr name node)
    (hname : Function.Injective name) (i j : N) (env : Env) (message : Bytes)
    (hroom : underway s j < maxReassemblyBufs) :
    ∃ letters', Tracks C addr name node (step C addr name s (.send i j env message)) letters' := by
  have hsame := send_same C env (s.network.node i) (name j) message
  have hcbs := (Retransmission.callbacks_send C env (s.network.node i) (name j) message).2
  have hbufs := fragBufs_send C env (s.network.node i) (name j) message
  by_cases hraised : (send C env (s.network.node i) (name j) message).raised = none
  · cases hsession : (s.network.node i).sessions.get? (name j) with
    | none =>
      rw [send_missing C env _ _ message hsession] at hraised
      contradiction
    | some session =>
      obtain ⟨hsendable, heffects⟩ := send_ok C env _ _ message session hsession hraised
      obtain ⟨haddr, hposted⟩ := h.letter hacq hsession hsendable
      obtain ⟨_, _, hinFlight, hcounter⟩ := send_loop C env _ _ message session hsession
      obtain ⟨k, chunk, hchunk, hlast⟩ :=
        exists_last_chunk C env (s.network.node i) session.sessionKey message
      have hentry := sendFragments_last C env session (s.network.node i).msgIdCounter
        (sending C env (s.network.node i) session.sessionKey message).total
        { s.network.node i with msgIdCounter := (s.network.node i).msgIdCounter + 1 } 0 _
        (fun k chunk hchunk => by rw [Nat.zero_add]; exact hsendable k chunk hchunk) k chunk hchunk
        hlast
      rw [haddr] at heffects
      have hbegun := h.begins hname hacq.opened
        ⟨⟨i, j, (s.network.node i).msgIdCounter, message⟩,
          sending C env (s.network.node i) session.sessionKey message⟩
        (send C env (s.network.node i) (name j) message) rfl hposted hsame hcbs hcounter hbufs
        (fun m hm => send_other C env _ _ message m hm)
        (by rw [hinFlight]; exact Option.isSome_of_mem hentry) heffects hroom
      have hstep : Conversations.step C addr name s (.send i j env message) =
          { act addr s s.network.wire i (send C env (s.network.node i) (name j) message) with
            taken := s.taken ++ [⟨i, j, (s.network.node i).msgIdCounter, message⟩] } := by
        simp only [Conversations.step, if_pos hraised]
      rw [hstep]
      exact ⟨_, hbegun⟩
  · obtain ⟨hquiet, hentries, hcounter⟩ :=
      send_silent env (s.network.node i) (name j) message hraised
    refine ⟨letters, ?_⟩
    have hidle := h.idle i _ hsame hcbs hcounter hbufs hentries hquiet
    simp only [step, if_neg hraised]
    exact hidle

theorem retrySweep_idle {env : Env} {t : MeshTransport} (h : due env t = []) :
    retrySweep env t = done t := by
  show Outcome.mk (retryEntries env.monotonic t (due env t)).1
    (retryEntries env.monotonic t (due env t)).2 none = _
  rw [h]
  rfl

/-- No step loses track of a message. -/
theorem Tracks.step (haead : C.AeadCorrect) (hacq : Acquainted C addr name node)
    (hname : Function.Injective name) (haddr : Function.Injective addr)
    (h : Tracks C addr name node s letters) (l : Step N) (hl : Unhurried s l) :
    ∃ letters', Tracks C addr name node (Conversations.step C addr name s l) letters' := by
  cases l with
  | send i j env message => exact h.sends hacq hname i j env message hl
  | deliver l =>
    by_cases harrives : Arrives addr (s.network, l)
    · simp only [Conversations.step, if_pos harrives]
      exact h.delivered haead hname haddr hacq.opened l harrives
    · simp only [Conversations.step, if_neg harrives]
      exact ⟨letters, h⟩
  | sweep i env =>
    simp only [Conversations.step, retrySweep_idle hl]
    exact ⟨letters, h.idle i _ (.refl _) rfl le_rfl rfl rfl rfl⟩

theorem tracks_start (hacq : Acquainted C addr name node) :
    Tracks C addr name node (start node) [] where
  same _ := .refl _
  ackCbs _ := rfl
  taken := rfl
  wire := List.Perm.refl _
  calls := List.Perm.refl _
  posted _ hp := absurd hp List.not_mem_nil
  stands _ hp := absurd hp List.not_mem_nil
  distinct := List.nodup_nil
  counted _ hp := absurd hp List.not_mem_nil
  buffers j bufKey hget := absurd (hacq.fragBufs j bufKey) hget
  entries i m hget := absurd (hacq.inFlight i m) hget
  room _ := Nat.zero_le _

end Sending

section Settling

variable {C : Suite} {N : Type*} [DecidableEq N] {addr : N → Addr} {name : N → String}
variable {node : N → MeshTransport} {s : Conversation N} {letters : List (Letter N × Phase)}

theorem tracks_run (haead : C.AeadCorrect) (hacq : Acquainted C addr name node)
    (hname : Function.Injective name) (haddr : Function.Injective addr) (steps : List (Step N))
    (hsteps : Runs.Always (step C addr name) Unhurried (start node) steps) :
    ∃ letters, Tracks C addr name node (Runs.run (step C addr name) (start node) steps) letters :=
  Runs.invariant (I := fun s => ∃ letters, Tracks C addr name node s letters)
    (fun _ l ⟨_, h⟩ hl => h.step haead hacq hname haddr l hl) (start node) steps
    ⟨[], tracks_start hacq⟩ hsteps

omit [DecidableEq N] in
theorem outcomes_of_taken (node : N → MeshTransport) (letters : List (Letter N × Phase)) :
    (letters.map fun p => p.1.taken).flatMap (outcome name node) =
      letters.flatMap fun p => outcome name node p.1.taken := by
  rw [List.flatMap_map]

/-- No callback is called more often than the messages taken account for. -/
theorem Tracks.calls_subperm (h : Tracks C addr name node s letters) :
    s.calls.Subperm (s.taken.flatMap (outcome name node)) := by
  rw [h.taken, outcomes_of_taken]
  refine ⟨letters.flatMap (reported name node), h.calls.symm, ?_⟩
  refine List.Sublist.flatMap_right letters fun p _ => ?_
  obtain ⟨ℓ, phase⟩ := p
  cases phase with
  | outstanding missing => exact List.nil_sublist _
  | answered => exact List.sublist_append_left _ _
  | settled => exact List.Sublist.refl _

/-- With nothing on its way every message is settled. -/
theorem Tracks.settled (h : Tracks C addr name node s letters) (hwire : s.network.wire = [])
    {p : Letter N × Phase} (hp : p ∈ letters) : p.2 = .settled := by
  have hnone : ∀ d, d ∉ onWire C addr node p := by
    intro d hd
    have hmem := h.wire.mem_iff.mpr (List.mem_flatMap.mpr ⟨p, hp, hd⟩)
    rw [hwire] at hmem
    contradiction
  obtain ⟨ℓ, phase⟩ := p
  cases phase with
  | outstanding missing =>
    obtain ⟨⟨i, hi⟩, _⟩ := (h.stands _ hp).missing missing rfl
    exact absurd (List.mem_map.mpr ⟨i, Finset.mem_toList.mpr hi, rfl⟩) (hnone (ℓ.piece C addr i))
  | answered => exact absurd (List.mem_singleton_self _) (hnone _)
  | settled => rfl

/-- What is on its way can arrive. -/
theorem Tracks.exists_receiver (h : Tracks C addr name node s letters) {d : Datagram}
    (hd : d ∈ s.network.wire) : ∃ i, d.dest = addr i := by
  obtain ⟨⟨ℓ, phase⟩, _, hd⟩ := List.mem_flatMap.mp (h.wire.mem_iff.mp hd)
  cases phase with
  | outstanding missing =>
    obtain ⟨i, _, rfl⟩ := List.mem_map.mp hd
    exact ⟨_, rfl⟩
  | answered =>
    rw [List.mem_singleton.mp hd]
    exact ⟨_, rfl⟩
  | settled => exact absurd hd List.not_mem_nil

theorem network_deliver (name : N → String) (s : Conversation N) (l : Delivery N) :
    (step C addr name s (.deliver l)).network = deliver C addr s.network l := by
  simp only [step, deliver]
  split <;> rfl

theorem taken_deliver (s : Conversation N) (l : Delivery N) :
    (step C addr name s (.deliver l)).taken = s.taken := by
  simp only [step]
  split <;> rfl

/-- Some deliveries take everything off the wire. -/
theorem Tracks.exists_deliveries (haead : C.AeadCorrect) (hacq : Acquainted C addr name node)
    (hname : Function.Injective name) (haddr : Function.Injective addr)
    (h : Tracks C addr name node s letters) : ∃ (deliveries : List (Delivery N)) (letters' : _),
      let s' := Runs.run (Conversations.step C addr name) s (deliveries.map .deliver)
      s'.network.wire = [] ∧ s'.taken = s.taken ∧ Tracks C addr name node s' letters' := by
  let worth := fun d : Datagram => if asks d.data then 2 else 1
  induction hsize : total worth s.network.wire using Nat.strong_induction_on
    generalizing s letters with
  | _ size ih =>
    cases hwire : s.network.wire with
    | nil => exact ⟨[], letters, hwire, rfl, h⟩
    | cons d rest =>
      have hd : d ∈ s.network.wire := by rw [hwire]; exact List.mem_cons_self
      obtain ⟨i, hdest⟩ := h.exists_receiver hd
      let l : Delivery N := ⟨i, Honest.stillEnv, d⟩
      have hpays := pays_deliver C addr (f := fun _ => 1) (g := worth)
        (fun d => by simp only [worth]; split <;> omega)
        (fun d answer hasks hquiet _ => by simp [worth, hasks, hquiet]) s.network l
      rw [if_pos (show Arrives addr (s.network, l) from ⟨hd, hdest⟩),
        ← network_deliver name] at hpays
      obtain ⟨letters', h'⟩ := h.step haead hacq hname haddr (.deliver l) trivial
      obtain ⟨deliveries, final, hempty, htaken, hfinal⟩ := ih _ (by omega) h' rfl
      refine ⟨l :: deliveries, final, hempty, ?_, hfinal⟩
      exact htaken.trans (taken_deliver s l)

/-- With nothing on its way every message has had its whole outcome, and nobody waits. -/
theorem Tracks.quiescent (h : Tracks C addr name node s letters) (hwire : s.network.wire = []) :
    s.calls.Perm (s.taken.flatMap (outcome name node)) ∧
    ∀ i, (∀ m, (s.network.node i).inFlight.get? m = none) ∧
      ∀ bufKey, (s.network.node i).fragBufs.get? bufKey = none := by
  refine ⟨?_, fun i => ⟨fun m => ?_, fun bufKey => ?_⟩⟩
  · rw [h.taken, outcomes_of_taken]
    refine h.calls.trans (List.Perm.of_eq ?_)
    refine List.flatMap_congr fun p hp => ?_
    rw [reported, h.settled hwire hp]
  · by_contra hget
    obtain ⟨p, hp, rfl, rfl⟩ := h.entries i m hget
    have hflying := (h.stands p hp).inFlight
    rw [h.settled hwire hp] at hflying
    exact hget (Option.isNone_iff_eq_none.mp (by simpa [Phase.flying] using hflying))
  · by_contra hget
    obtain ⟨p, hp, hflying, _⟩ := h.buffers i bufKey hget
    rw [h.settled hwire hp] at hflying
    contradiction

/-- Nodes that hold sessions with each other send what they like, in any order between arrivals
in any order, each packet and each acknowledgement arriving once, with fewer than 64 messages in
flight to a node and no sweep that finds one overdue. No callback is ever called for more than
the messages taken; what is taken can always be brought to its end by deliveries alone; and
whenever nothing is on its way, each message taken has been handed to its receiver's callbacks
once and reported to its sender's once, and no node keeps anything of it. -/
theorem conversation_settles (haead : C.AeadCorrect) (hname : Function.Injective name)
    (haddr : Function.Injective addr) (hacq : Acquainted C addr name node) (steps : List (Step N))
    (hsteps : Runs.Always (step C addr name) Unhurried (start node) steps) :
    let s := Runs.run (step C addr name) (start node) steps
    s.calls.Subperm (s.taken.flatMap (outcome name node)) ∧
    (∃ deliveries : List (Delivery N),
      let s' := Runs.run (step C addr name) s (deliveries.map .deliver)
      s'.network.wire = [] ∧ s'.calls.Perm (s.taken.flatMap (outcome name node))) ∧
    (s.network.wire = [] → s.calls.Perm (s.taken.flatMap (outcome name node)) ∧
      ∀ i, (∀ m, (s.network.node i).inFlight.get? m = none) ∧
        ∀ bufKey, (s.network.node i).fragBufs.get? bufKey = none) := by
  intro s
  obtain ⟨letters, h⟩ := tracks_run haead hacq hname haddr steps hsteps
  refine ⟨h.calls_subperm, ?_, h.quiescent⟩
  obtain ⟨deliveries, letters', hempty, htaken, h'⟩ := h.exists_deliveries haead hacq hname haddr
  refine ⟨deliveries, hempty, ?_⟩
  have hcalls := (h'.quiescent hempty).1
  rwa [htaken] at hcalls

end Settling

section Stub

open Honest

/-- A started node that has registered a session with another. -/
def met (t : MeshTransport) (addr : Addr) (other : DeviceIdentity) : MeshTransport :=
  (startWith t [0] [] [] [0] .empty).installSession 0 addr sharedKey (getPublicBundle stub other)

def duo (ta tb : MeshTransport) : Bool → MeshTransport
  | true => met ta bravoAddr bravo
  | false => met tb alphaAddr alpha

def duoAddr : Bool → Addr
  | true => alphaAddr
  | false => bravoAddr

def duoName : Bool → String
  | true => "alpha"
  | false => "bravo"

theorem sessions_met {owner other : DeviceIdentity} {t : MeshTransport}
    (ht : MeshTransport.init owner = .ok t) {addr : Addr} {peerId : String} {session : SessionInfo}
    (h : (met t addr other).sessions.get? peerId = some session) :
    peerId = other.deviceId ∧ session.peerAddr = addr ∧ session.sessionKey = sharedKey := by
  have hempty := (fresh_startWith owner t ht [0] [] [] [0] .empty).sessions
  simp only [met, installSession, hempty, OrderedDict.get?_set] at h
  split at h
  · rename_i heq
    cases h
    exact ⟨heq.symm, rfl, rfl⟩
  · contradiction

theorem holds_met (t : MeshTransport) (addr : Addr) (other : DeviceIdentity) :
    ∃ session, Holds (met t addr other) addr other.deviceId session ∧
      session.sessionKey = sharedKey ∧ session.peerBundle = getPublicBundle stub other :=
  ⟨_, ⟨OrderedDict.get?_set_self _ _ _, OrderedDict.get?_set_self _ _ _⟩, rfl, rfl⟩

theorem acquainted_duo {ta tb : MeshTransport} (ha : MeshTransport.init alpha = .ok ta)
    (hb : MeshTransport.init bravo = .ok tb) :
    Acquainted stub duoAddr duoName (duo ta tb) := by
  have hfreshA := fresh_startWith alpha ta ha [0] [] [] [0] .empty
  have hfreshB := fresh_startWith bravo tb hb [0] [] [] [0] .empty
  have hidentity : ∀ i, (duo ta tb i).identity = if i then alpha else bravo := by
    rintro (_ | _)
    · exact hfreshB.identity
    · exact hfreshA.identity
  have hempty : ∀ i, (duo ta tb i).fragBufs = .empty ∧ (duo ta tb i).inFlight = .empty ∧
      (duo ta tb i).udpTransport = true := by
    rintro (_ | _)
    · exact ⟨hfreshB.fragBufs, hfreshB.inFlight, hfreshB.udpTransport⟩
    · exact ⟨hfreshA.fragBufs, hfreshA.inFlight, hfreshA.udpTransport⟩
  refine ⟨fun i => (hempty i).2.2, ?_, ?_, ?_, ?_⟩
  · rintro (_ | _)
    · rw [hidentity]
      exact honest_bravo.sign
    · rw [hidentity]
      exact honest_alpha.sign
  · intro i bufKey
    rw [(hempty i).1]
    rfl
  · intro i m
    rw [(hempty i).2.1]
    rfl
  · rintro (_ | _) j session hsession
    · obtain ⟨hname, haddr, hkey⟩ := sessions_met hb hsession
      cases j with
      | false => exact absurd hname (by decide)
      | true =>
        obtain ⟨session', hholds, hkey', hbundle⟩ := holds_met ta bravoAddr bravo
        refine ⟨haddr, (holds_met tb alphaAddr alpha).choose_spec.1.byAddr, session', hholds,
          hkey'.trans hkey.symm, ?_⟩
        rw [hbundle, hidentity]
        rfl
    · obtain ⟨hname, haddr, hkey⟩ := sessions_met ha hsession
      cases j with
      | true => exact absurd hname (by decide)
      | false =>
        obtain ⟨session', hholds, hkey', hbundle⟩ := holds_met tb alphaAddr alpha
        refine ⟨haddr, (holds_met ta bravoAddr bravo).choose_spec.1.byAddr, session', hholds,
          hkey'.trans hkey.symm, ?_⟩
        rw [hbundle, hidentity]
        rfl

theorem send_duo {ta : MeshTransport} (hta : MeshTransport.init alpha = .ok ta) (tb : MeshTransport)
    (message : Bytes) (hlen : sigSize + message.length ≤ 2 * maxFragPt) :
    (send stub stillEnv (duo ta tb true) (duoName false) message).raised = none := by
  obtain ⟨session, hholds, _⟩ := holds_met ta bravoAddr bravo
  have hcounter : (met ta bravoAddr bravo).msgIdCounter = 1 :=
    (fresh_startWith alpha ta hta [0] [] [] [0] .empty).msgIdCounter
  have hle := chunks_le_two stub stillEnv (met ta bravoAddr bravo) session.sessionKey message hlen
  refine (send_raised_iff stub stillEnv _ _ message session hholds.session).mpr ?_
  rw [sendable_iff, hcounter]
  exact ⟨by decide, by omega⟩

/-- Alpha sends bravo one message. -/
theorem conversation_settles_duo : ∃ (node : Bool → MeshTransport) (m : Taken Bool)
    (deliveries : List (Delivery Bool)), m.sender = true ∧ m.receiver = false ∧
    (Runs.run (step stub duoAddr duoName) (start node)
      (.send true false stillEnv shortMessage :: deliveries.map .deliver)).calls.Perm
      [(false, .message 0 "alpha" shortMessage), (true, .ackReceived 0 m.msgId)] := by
  obtain ⟨ta, hta⟩ := init_ok alpha (by decide)
  obtain ⟨tb, htb⟩ := init_ok bravo (by decide)
  have hacq := acquainted_duo hta htb
  have hraised := send_duo hta tb shortMessage (by decide)
  let first : List (Step Bool) := [.send true false stillEnv shortMessage]
  have htaken : (Runs.run (step stub duoAddr duoName) (start (duo ta tb)) first).taken =
      [⟨true, false, (duo ta tb true).msgIdCounter, shortMessage⟩] := by
    simp only [first, Runs.run_cons, Runs.run_nil, step, start, hraised, if_true, List.nil_append]
  obtain ⟨_, ⟨deliveries, _, hcalls⟩, _⟩ := conversation_settles stub_aeadCorrect (by decide)
    (by decide) hacq first ⟨show 0 < maxReassemblyBufs by decide, trivial⟩
  rw [htaken] at hcalls
  exact ⟨duo ta tb, _, deliveries, rfl, rfl, hcalls⟩

end Stub

end Mesim.Conversations
