import Mesim.Outcomes
import Mesim.ReplayNetwork

/-!
What an acknowledgement says.
A node sends an ACK only in the step in which it has all of a message, verifies it and hands it
to its callbacks. So whatever the network loses, repeats or holds back, a message that has been
acknowledged to its sender was handed over before that, as it was sent.
-/
namespace Mesim.Acknowledgements

open Octets TextCodec Crypto Identity Packet Transport Operations Dispatch Fragments Honest
open Reassembly FragmentDelivery SignedDelivery InFlightTable Retransmission Collector
open ReplayNetwork MeshTransport Outcome
open Nodes hiding Reachable
open Pair hiding step

variable (C : Suite)

section Packets

/-- The msg_id in an ACK packet. -/
def ackId? (packet : Bytes) : Option ℕ :=
  match parsePacket packet with
  | .ok ⟨.ack, _, payload⟩ => some (unpackBE (slice payload 0 4))
  | _ => none

theorem ackId?_eq_some {packet : Bytes} {m : ℕ} (h : ackId? packet = some m) :
    ∃ sid payload, parsePacket packet = .ok ⟨.ack, sid, payload⟩ := by
  unfold ackId? at h
  split at h
  · rename_i sid payload hparse
    exact ⟨sid, payload, hparse⟩
  · contradiction

theorem ackId?_frame (ptype : PacketType) (senderId : Fixed 32) (payload mac : Bytes)
    (hne : ptype ≠ .ack) (hlen : payload.length < 65536) (hmac : mac.length = macSize) :
    ackId? (frame ptype senderId payload mac) = none := by
  rw [Option.eq_none_iff_forall_ne_some]
  intro m hack
  obtain ⟨sid, payload', hparse⟩ := ackId?_eq_some hack
  exact hne (ptype_frame ptype senderId payload mac hlen hmac _ hparse).symm

theorem ackId?_buildPacket {ptype : PacketType} {senderId : Fixed 32} {payload packet : Bytes}
    {key : Option SessionKey} (hbuild : buildPacket C ptype senderId payload key = .ok packet)
    (hne : ptype ≠ .ack) : ackId? packet = none := by
  obtain ⟨hlen, mac, hmac, rfl, _⟩ := buildPacket_eq_frame C ptype senderId payload key packet hbuild
  exact ackId?_frame ptype senderId payload mac hne hlen hmac

theorem ackId?_of_messageId? {packet : Bytes} {m : ℕ} (h : messageId? packet = some m) :
    ackId? packet = none := by
  rw [Option.eq_none_iff_forall_ne_some]
  intro k hack
  obtain ⟨sid, payload, hparse⟩ := ackId?_eq_some hack
  simp only [messageId?, hparse] at h
  contradiction

theorem ackId?_of_acknowledges {t : MeshTransport} {data : Bytes} {addr : Addr} {m : ℕ}
    (h : acknowledges C t data addr = some m) : ackId? data = some m := by
  unfold acknowledges at h
  split at h
  · rename_i sid payload hparse
    split at h
    · rw [ackId?, hparse]
      exact h
    · contradiction
  · contradiction

theorem ackId?_ackPacket (senderId : Fixed 32) (key : SessionKey) (payload : Bytes) :
    ackId? (ackPacket C senderId key (unpackFragHeader payload).msgId) =
      some (unpackFragHeader payload).msgId := by
  have hparse := parsePacket_frame .ack senderId (packBE 4 (unpackFragHeader payload).msgId)
    (computeMac C key ([protocolVersion, PacketType.ack.toByte] ++ senderId.toList ++
      packBE 2 (packBE 4 (unpackFragHeader payload).msgId).length)
      (packBE 4 (unpackFragHeader payload).msgId)) (by rw [packBE_length]; decide)
    (computeMac_length C key _ _)
  have hlt : (unpackFragHeader payload).msgId < 256 ^ 4 := by
    refine lt_of_lt_of_le (unpackBE_lt _) (Nat.pow_le_pow_right (by decide) ?_)
    exact List.length_take_le 4 _
  rw [ackId?, ackPacket, hparse]
  simp only [slice_self _ 4 (Nat.le_of_eq (packBE_length 4 _)), unpackBE_packBE 4 _ hlt]

end Packets

section Nodes

/-- A datagram is answered with an ACK only by the delivery of the message it carries a part of. -/
theorem acks_dispatch (env : Env) (t : MeshTransport) (data : Bytes) (addr : Addr) (packet : Bytes)
    (dest : Addr) (m : ℕ) (hsent : .sendto packet dest ∈ (dispatch C env t data addr).effects)
    (hack : ackId? packet = some m) : messageId? data = some m := by
  have hzero : zeroMac.length = macSize := List.length_replicate
  cases hparse : parsePacket data with
  | error e =>
    simp only [dispatch, hparse] at hsent
    contradiction
  | ok parsed =>
    obtain ⟨ptype, sid, payload⟩ := parsed
    by_cases hmessage : ptype = .message
    · subst hmessage
      rw [messageId?, hparse]
      rcases effects_message C env t data sid payload addr hparse with
        hnone | ⟨peerId, session, message, _, _, heffects⟩
      · rw [hnone] at hsent
        contradiction
      · rw [heffects] at hsent
        rcases List.mem_append.mp hsent with hreply | hcb
        · cases mem_sendRaw _ _ _ _ hreply
          rw [ackId?_ackPacket] at hack
          exact hack
        · simp at hcb
    · -- the other handlers answer with packets of other types
      suffices hnone : ackId? packet = none by
        rw [hnone] at hack
        contradiction
      simp only [dispatch, hparse] at hsent
      split at hsent
      · cases ptype with
        | message => exact absurd rfl hmessage
        | handshake =>
          obtain ⟨_, wire, hwire, heq⟩ := handshake_effects C t payload addr _ hsent
          cases heq
          exact ackId?_frame .handshakeResp t.senderId wire zeroMac (by decide)
            (packBundle_fits C t.identity wire hwire) hzero
        | handshakeResp =>
          simp only [handle, handshakeResp_effects] at hsent
          contradiction
        | keyInit =>
          rcases keyInit_effects C env t payload addr _ hsent with ⟨key, heq⟩ | ⟨_, _, heq⟩
          · cases heq
            exact ackId?_frame .keyAck t.senderId _ zeroMac (by decide)
              (by rw [keyAck_length]; decide) hzero
          · contradiction
        | keyAck =>
          obtain ⟨_, _, heq⟩ := keyAck_effects C env t payload addr _ hsent
          contradiction
        | ack =>
          simp only [handle, handleAck] at hsent
          split at hsent
          · contradiction
          · simp at hsent
        | ping =>
          simp only [handle] at hsent
          split at hsent
          · contradiction
          · obtain ⟨pong, hbuild, heq⟩ := ping_effects C env t addr _ _ _ hsent
            cases heq
            exact ackId?_buildPacket C hbuild (by decide)
        | pong => contradiction
        | storeForward | originator =>
          simp only [handle] at hsent
          split at hsent
          · contradiction
          · simp at hsent
      · contradiction

/-- What a node sends of its own accord is no ACK. -/
theorem ackId?_own (n : Node) (env : Env) (e : Event) (h : InFlightTable.Orderly n.transport)
    (hown : ∀ data addr, e ≠ .datagram data addr) (packet : Bytes) (dest : Addr)
    (hsent : .sendto packet dest ∈ (n.step C env e).2) : ackId? packet = none := by
  have hzero : zeroMac.length = macSize := List.length_replicate
  cases e with
  | datagram data addr => exact absurd rfl (hown data addr)
  | connect addr bundle =>
    change .sendto packet dest ∈ (connectBegin C n.transport addr bundle).effects at hsent
    have hbegun := connectBegin_begun C n.transport addr bundle
    generalize connectBegin C n.transport addr bundle = out at hbegun hsent
    cases hbegun with
    | rejected | unsent => contradiction
    | sent wire _ hwire =>
      cases mem_sendRaw _ _ _ _ hsent
      exact ackId?_frame .handshake _ wire _ (by decide) (packBundle_fits C _ wire hwire) hzero
  | resume i =>
    change .sendto packet dest ∈ (n.resume C env i).2 at hsent
    have hresumed := resume_resumed C env n i
    generalize n.resume C env i = out at hresumed hsent
    cases hresumed with
    | idle | failed | returned => contradiction
    | encapsulated call hs result key =>
      cases mem_sendRaw _ _ _ _ hsent
      exact ackId?_frame .keyInit _ _ _ (by decide) (by rw [List.Vector.toList_length]; decide) hzero
  | timeout i => contradiction
  | send peerId message =>
    exact ackId?_of_messageId? (send_emits C env n.transport peerId message packet dest hsent)
  | retry =>
    obtain ⟨m, _, _, hid, _⟩ := retrySweep_emits h env packet dest hsent
    exact ackId?_of_messageId? hid

end Nodes

section Runs

variable (P : Parties)

/-- In this step the other node acknowledges the message to `x`, and hands it to its callbacks. -/
def HandsOver (x : Side) (peerId : String) (key : SessionKey) (m : ℕ) (message : Bytes) (s : System) :
    Label → Prop
  | .deliver sender env packet => sender = x ∧ s.carries x packet = true ∧
      (dispatch C env (s.node x.other).transport packet (P.addr x)).effects =
        delivery C (s.node x.other).transport (P.addr x) peerId key m message
  | .act _ _ _ => False

/-- The message may have arrived in part, and no ACK of it is under way. -/
structure Awaiting (s : System) (x : Side) (X : Sending) (peerId : String) : Prop where
  tracked : Tracked C s x X
  buffered : ∃ kept ⊆ Finset.range X.total,
    Buffered (s.node x.other).transport (peerId, X.msgId) X.chunks kept
  silent : ∀ packet, (x.other, packet) ∈ s.wire → ackId? packet ≠ some X.msgId

variable {C P} {s : System} {x : Side} {X : Sending} {message : Bytes} {peerId : String}

/-- An ACK of a message leaves a node only where a packet of the message comes in. -/
theorem silent_step {m : ℕ} (l : Label) (horderly : Orderly (s.node x.other).transport)
    (h : ∀ packet, (x.other, packet) ∈ s.wire → ackId? packet ≠ some m)
    (hnot : brings s x m l = false) :
    ∀ packet, (x.other, packet) ∈ (step C P s l).wire → ackId? packet ≠ some m := by
  intro packet hmem hack
  cases l with
  | act y env op =>
    rw [step] at hmem
    rcases (mem_advance_wire P).mp hmem with hold | ⟨rfl, hsent⟩
    · exact h packet hold hack
    · have hnone := ackId?_own C (s.node x.other) env (event C P x.other op) horderly
        (fun data addr heq => by cases op <;> contradiction) packet _ hsent
      rw [hnone] at hack
      contradiction
  | deliver sender env data =>
    rw [step] at hmem
    split at hmem
    · rename_i hcarried
      rcases (mem_advance_wire P).mp hmem with hold | ⟨heq, hsent⟩
      · exact h packet hold hack
      · have hsender : sender = x := by
          rw [← other_other sender, ← heq, other_other]
        subst hsender
        have hid := acks_dispatch C env _ data _ packet _ m hsent hack
        simp [brings, hcarried, hid] at hnot
    · exact h packet hmem hack

/-- A packet of the message is turned away, is kept, or completes the message. -/
theorem awaiting_packet (haead : C.AeadCorrect) (h : Awaiting C s x X peerId)
    (hsession : InSession C P x peerId X.key s)
    (hgenuine : Genuine C X message (P.bundle C x).verifyKey) (env : Env) {i : ℕ} {chunk : Bytes}
    (hchunk : X.chunks[i]? = some chunk) (hmem : s.carries x (X.packet C i chunk) = true) :
    Awaiting C (step C P s (.deliver x env (X.packet C i chunk))) x X peerId ∨
      HandsOver C P x peerId X.key X.msgId message s (.deliver x env (X.packet C i chunk)) := by
  obtain ⟨kept, hkept, hbuf⟩ := h.buffered
  obtain ⟨session, hholds, hkey, hbundle⟩ := hsession
  let t := (s.node x.other).transport
  let out := dispatch C env t (X.packet C i chunk) (P.addr x)
  have hstep : step C P s (.deliver x env (X.packet C i chunk)) =
      advance P s x.other s.wire ({ s.node x.other with transport := out.state }, out.effects) := by
    rw [step, if_pos hmem]
    rfl
  have hnext : ((step C P s (.deliver x env (X.packet C i chunk))).node x.other).transport =
      out.state := by
    rw [hstep, advance_self]
  have hquiet : out.effects = [] → ∀ packet, (x.other, packet) ∈ (step C P s
      (.deliver x env (X.packet C i chunk))).wire → ackId? packet ≠ some X.msgId := by
    intro hnone packet hpacket
    have hwire : (advance P s x.other s.wire ({ s.node x.other with transport := out.state },
        out.effects)).wire = s.wire := by
      rw [advance, hnone]
      exact List.append_nil _
    rw [hstep, hwire] at hpacket
    exact h.silent packet hpacket
  by_cases hopen : openBuffer t (peerId, X.msgId) = none
  · obtain ⟨hstate, hnone⟩ := receive_turnedAway C haead env hholds X hkey hgenuine.sendable i chunk
      hchunk hopen
    refine Or.inl ⟨step_tracked h.tracked _, ⟨kept, hkept, ?_⟩, hquiet hnone⟩
    exact Buffered.of_get?_eq hbuf (by rw [hnext, hstate])
  · rw [← hbundle] at hgenuine
    obtain ⟨hbuf', heffects⟩ := receive_kept C haead env hholds X message hkey hgenuine i chunk
      hchunk kept hkept hbuf hopen
    by_cases hfull : insert i kept = Finset.range X.total
    · rw [if_pos hfull] at heffects
      exact Or.inr ⟨rfl, hmem, heffects⟩
    · rw [if_neg hfull] at heffects
      have hi : i ∈ Finset.range X.total :=
        Finset.mem_range.mpr (List.getElem?_eq_some_iff.mp hchunk).1
      refine Or.inl ⟨step_tracked h.tracked _, ⟨collect (Finset.range X.total) kept i,
        collect_subset hkept hi, ?_⟩, hquiet heffects⟩
      exact Buffered.of_get?_eq hbuf' (by rw [hnext])

/-- Until the message is handed over, its sender awaits it. -/
theorem awaiting_step (haead : C.AeadCorrect) (h : Awaiting C s x X peerId)
    (hsession : InSession C P x peerId X.key s)
    (hgenuine : Genuine C X message (P.bundle C x).verifyKey)
    (horderly : Orderly (s.node x.other).transport) (l : Label) :
    Awaiting C (step C P s l) x X peerId ∨ HandsOver C P x peerId X.key X.msgId message s l := by
  by_cases hbrings : brings s x X.msgId l = true
  · cases l with
    | act _ _ _ => contradiction
    | deliver sender env packet =>
      obtain ⟨rfl, hmem, hid⟩ := of_decide_eq_true hbrings
      obtain ⟨i, chunk, hchunk, rfl⟩ := (X.mem_packets C packet).mp
        (h.tracked.wire packet ((carries_iff s sender packet).mp hmem) hid)
      exact awaiting_packet haead h hsession hgenuine env hchunk hmem
  · have hnot := Bool.eq_false_iff.mpr hbrings
    obtain ⟨kept, hkept, hbuf⟩ := h.buffered
    exact Or.inl ⟨step_tracked h.tracked l, ⟨kept, hkept, buffered_elsewhere l hbuf hnot⟩,
      silent_step l horderly h.silent hnot⟩

theorem awaiting_run (haead : C.AeadCorrect)
    (hgenuine : Genuine C X message (P.bundle C x).verifyKey) (labels : List Label)
    (hs : Reachable C P s) (h : Awaiting C s x X peerId)
    (hsession : Runs.Always (step C P) (fun s _ => InSession C P x peerId X.key s) s labels) :
    Awaiting C (Runs.run (step C P) s labels) x X peerId ∨ ∃ done l rest,
      labels = done ++ l :: rest ∧
      HandsOver C P x peerId X.key X.msgId message (Runs.run (step C P) s done) l := by
  induction labels generalizing s with
  | nil => exact Or.inl h
  | cons l rest ih =>
    obtain ⟨hnow, hlater⟩ := hsession
    have horderly := reachable_orderly C ((reachable_accounted hs).reachable x.other)
    rcases awaiting_step haead h hnow hgenuine horderly l with hnext | hover
    · rcases ih (hs.next l) hnext hlater with hawaiting | ⟨done, l', rest', rfl, hover⟩
      · exact Or.inl hawaiting
      · exact Or.inr ⟨l :: done, l', rest', rfl, hover⟩
    · exact Or.inr ⟨[], l, rest, rfl, hover⟩

theorem counter_le (s : System) (l : Label) (x : Side) :
    (s.node x).transport.msgIdCounter ≤ ((step C P s l).node x).transport.msgIdCounter := by
  have hmove := step_move C P s l
  generalize step C P s l = s' at hmove
  cases hmove with
  | idle => exact le_rfl
  | moved y env e _ =>
    rcases eq_or_eq_other x y with rfl | rfl
    · rw [advance_self]
      exact counter_step C (s.node x) (env, e)
    · rw [advance_other]

/-- No ACK is under way of a msg_id that is still to be used. -/
theorem unused_silent (hs : Reachable C P s) (x : Side) {m : ℕ}
    (hunused : (s.node x).transport.msgIdCounter ≤ m) :
    ∀ packet, (x.other, packet) ∈ s.wire → ackId? packet ≠ some m := by
  suffices hall : Reachable C P s ∧ ∀ m, (s.node x).transport.msgIdCounter ≤ m →
      ∀ packet, (x.other, packet) ∈ s.wire → ackId? packet ≠ some m from hall.2 m hunused
  refine Runs.reachable_invariant (I := fun s => Reachable C P s ∧
    ∀ m, (s.node x).transport.msgIdCounter ≤ m → ∀ packet, (x.other, packet) ∈ s.wire →
      ackId? packet ≠ some m) (fun s h₀ => ⟨.of_initial h₀, ?_⟩) (fun s l hsilent => ?_) hs
  · intro m _ packet hmem
    rw [h₀.2] at hmem
    contradiction
  · obtain ⟨hreach, hsilent⟩ := hsilent
    refine ⟨hreach.next l, fun m hm => ?_⟩
    have haccounted := reachable_accounted hreach
    have hbefore := Nat.le_trans (counter_le s l x) hm
    refine silent_step l (reachable_orderly C (haccounted.reachable x.other)) (hsilent m hbefore) ?_
    rw [Bool.eq_false_iff]
    intro hbrings
    cases l with
    | act _ _ _ => contradiction
    | deliver sender env packet =>
      obtain ⟨rfl, hmem, hid⟩ := of_decide_eq_true hbrings
      have hused := haccounted.posted sender packet m ((carries_iff s sender packet).mp hmem) hid
      exact Nat.not_le.mpr hused hbefore

theorem awaiting_send (hs : Reachable C P s) (x : Side) (env : Env) (pid peerId : String)
    (message : Bytes) (ss : SessionInfo)
    (hsession : (s.node x).transport.sessions.get? pid = some ss)
    (hsent : (send C env (s.node x).transport pid message).raised = none) :
    Awaiting C (step C P s (.act x env (.send pid message))) x
      (sending C env (s.node x).transport ss.sessionKey message) peerId where
  tracked := tracked_send (reachable_accounted hs) x env pid message ss hsession hsent
  buffered := ⟨∅, Finset.empty_subset _,
    buffered_send (reachable_accounted hs) x env pid message ss.sessionKey peerId⟩
  silent := silent_step _ (reachable_orderly C ((reachable_accounted hs).reachable x.other))
    (unused_silent hs x le_rfl) rfl

/-- A message that is acknowledged to its sender has been handed over before, as it was sent and
under the id of the session it came through. -/
theorem acknowledged_handed_over (haead : C.AeadCorrect)
    (hown : ∀ x, HonestIdentity C (P.identity x)) (hs : Reachable C P s) (x : Side) (env : Env)
    (pid peerId : String) (message : Bytes) (ss : SessionInfo)
    (hsession : (s.node x).transport.sessions.get? pid = some ss)
    (hsent : (send C env (s.node x).transport pid message).raised = none) (labels : List Label)
    (hin : Runs.Always (step C P) (fun s _ => InSession C P x peerId ss.sessionKey s)
      (step C P s (.act x env (.send pid message))) labels)
    (packet : Bytes) (hcarried : (x.other, packet) ∈
      (Runs.run (step C P) (step C P s (.act x env (.send pid message))) labels).wire)
    (hack : acknowledges C
      ((Runs.run (step C P) (step C P s (.act x env (.send pid message))) labels).node x).transport
      packet (P.addr x.other) = some (s.node x).transport.msgIdCounter) :
    ∃ done l rest, labels = done ++ l :: rest ∧
      HandsOver C P x peerId ss.sessionKey (s.node x).transport.msgIdCounter message
        (Runs.run (step C P) (step C P s (.act x env (.send pid message))) done) l := by
  have hidentity := (reachable_device C _ _ ((reachable_accounted hs).reachable x)).1
  have hsign : C.SignCorrect (s.node x).transport.identity.signingKeypair := by
    rw [hidentity]
    exact (hown x).sign
  have hgenuine := genuine_sending C env (s.node x).transport ss.sessionKey message hsign
    (send_ok C env (s.node x).transport pid message ss hsession hsent).1
  rw [hidentity] at hgenuine
  rcases awaiting_run haead hgenuine labels (hs.next _)
    (awaiting_send hs x env pid peerId message ss hsession hsent) hin with hawaiting | hover
  · exact absurd (ackId?_of_acknowledges C hack) (hawaiting.silent packet hcarried)
  · exact hover

end Runs

section Stub

open KeyAgreement

/-- Bravo's ACK for alpha's short message is under way; bravo handed the message over before. -/
theorem acknowledged_handed_over_short : ∃ (s : System) (ss : SessionInfo) (l : Label)
    (packet : Bytes), Reachable stub stubParties s ∧
    (Side.b, packet) ∈ (Runs.run (step stub stubParties)
      (step stub stubParties s (.act .a stillEnv (.send "bravo" shortMessage))) [l]).wire ∧
    HandsOver stub stubParties .a "alpha" ss.sessionKey (s.node .a).transport.msgIdCounter
      shortMessage (step stub stubParties s (.act .a stillEnv (.send "bravo" shortMessage))) l := by
  obtain ⟨s, hs, hestA, hestB, hcounter, hcbs, hempty⟩ := exists_connected
  obtain ⟨ss, sb, whole, h, hholdsA⟩ := onTheWay_of_connected hs hestA hestB hcounter hcbs hempty
  let X := sending stub stillEnv (s.node .a).transport ss.sessionKey shortMessage
  let s₁ := step stub stubParties s (.act .a stillEnv (.send "bravo" shortMessage))
  let p := X.packet stub 0 whole
  let l : Label := .deliver .a stillEnv p
  let s₂ := step stub stubParties s₁ l
  let t := (s.node .b).transport
  let ack := ackPacket stub t.senderId X.key X.msgId
  have hnode₁ : (s₁.node .b).transport = t :=
    congrArg Node.transport (advance_other stubParties s .a s.wire _)
  have hin : InSession stub stubParties .a "alpha" ss.sessionKey s₁ :=
    inSession_of_same h.reception.holds h.reception.key h.bundle (by rw [hnode₁]; exact .refl t)
  have hstep : s₂ = advance stubParties s₁ .b s₁.wire
      ((s₁.node .b).step stub stillEnv (.datagram p alphaAddr)) :=
    if_pos ((carries_iff s₁ .a p).mpr h.wire)
  obtain ⟨_, _, hcaused⟩ := copy_single stub stub_aeadCorrect h.reception h.chunks (.refl t)
    (by rw [h.empty]; rfl) (by rw [h.empty]; decide) stillEnv
  have hwire : (Side.b, ack) ∈ s₂.wire := by
    rw [hstep]
    refine (mem_advance_wire stubParties).mpr (Or.inr ⟨rfl, ?_⟩)
    show .sendto ack alphaAddr ∈ (dispatch stub stillEnv (s₁.node .b).transport p alphaAddr).effects
    rw [hnode₁]
    change .sendto ack alphaAddr ∈ caused stub t ⟨stillEnv, p, alphaAddr⟩
    rw [hcaused, delivery, sendRaw, if_pos (reachable_device stub _ _
      ((reachable_accounted hs).reachable .b)).2]
    exact List.mem_cons_self
  -- alpha still holds the session
  have hnode₂ : (s₂.node .a).transport =
      (send stub stillEnv (s.node .a).transport "bravo" shortMessage).state := by
    rw [hstep, show Side.a = Side.b.other from rfl, advance_other]
    exact congrArg Node.transport (advance_self stubParties s .a s.wire _)
  obtain ⟨session, hholds, hkey, _⟩ := holds_of_same hholdsA
    (send_same stub stillEnv (s.node .a).transport "bravo" shortMessage)
  have hack : acknowledges stub (s₂.node .a).transport ack bravoAddr = some X.msgId := by
    rw [hnode₂]
    have hacked := Custody.ackedBy_ackPacket stub hholds t.senderId X.msgId (by
      show (s.node .a).transport.msgIdCounter < 256 ^ 4
      rw [hcounter]
      decide)
    rw [hkey] at hacked
    exact Custody.acknowledges_of_ackedBy hacked
  obtain ⟨done, l', rest, heq, hover⟩ := acknowledged_handed_over stub_aeadCorrect honest_stubParties
    hs .a stillEnv "bravo" "alpha" shortMessage ss h.session h.sent [l] ⟨hin, trivial⟩ ack hwire hack
  refine ⟨s, ss, l, ack, hs, hwire, ?_⟩
  cases done with
  | nil =>
    cases heq
    exact hover
  | cons first more =>
    have hlen := congrArg List.length heq
    simp at hlen

end Stub

end Mesim.Acknowledgements
