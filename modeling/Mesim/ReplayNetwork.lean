import Mesim.KeyAgreement
import Mesim.Retransmission

/-!
Two nodes on a network that forgets nothing.
Every packet posted to the other node stays on its way for good: it can arrive
late, more than once, or never. The receiver keeps no record of the messages it
has delivered, so how often one of them is delivered depends only on how often
its fragments come round.
-/
namespace Mesim.ReplayNetwork

open Octets TextCodec Crypto Identity Packet Transport Operations Dispatch Nodes Fragments
open Honest Reassembly FragmentDelivery InFlightTable Retransmission Collector Pair
open MeshTransport Outcome

variable (C : Suite) (P : Parties)

/-- As in the network that loses nothing, but a delivered packet stays. -/
def step (s : System) : Label → System
  | .act x env op => advance P s x s.wire ((s.node x).step C env (event C P x op))
  | .deliver sender env packet =>
    if s.carries sender packet then
      advance P s sender.other s.wire
        ((s.node sender.other).step C env (.datagram packet (P.addr sender)))
    else s

def Reachable (s : System) : Prop := Runs.Reachable (step C P) (Initial P) s

/-- What a step does: one node handles an event, a datagram only if the other one posted it. -/
inductive Move (s : System) : System → Prop
  | idle : Move s s
  | moved (y : Side) (env : Env) (e : Event)
      (hdatagram : ∀ data addr, e = .datagram data addr → (y.other, data) ∈ s.wire) :
      Move s (advance P s y s.wire ((s.node y).step C env e))

theorem step_move (s : System) (l : Label) : Move C P s (step C P s l) := by
  cases l with
  | act x env op =>
    refine .moved x env _ fun data addr heq => ?_
    cases op <;> contradiction
  | deliver sender env packet =>
    rw [step]
    split
    · rename_i hmem
      refine .moved sender.other env _ fun data addr heq => ?_
      cases heq
      rw [other_other]
      exact (carries_iff s sender packet).mp hmem
    · exact .idle

section Provenance

theorem advance_self (s : System) (y : Side) (wire : List (Side × Bytes)) (out : Node × List Effect) :
    (advance P s y wire out).node y = out.1 :=
  Function.update_self _ _ _

theorem advance_other (s : System) (y : Side) (wire : List (Side × Bytes))
    (out : Node × List Effect) : (advance P s y wire out).node y.other = s.node y.other :=
  Function.update_of_ne (other_ne y) _ _

theorem eq_or_eq_other (x y : Side) : x = y ∨ x = y.other := by
  cases x <;> cases y <;> decide

theorem mem_advance_wire {s : System} {x y : Side} {packet : Bytes} {out : Node × List Effect} :
    (x, packet) ∈ (advance P s y s.wire out).wire ↔
      (x, packet) ∈ s.wire ∨ x = y ∧ .sendto packet (P.addr y.other) ∈ out.2 := by
  rw [advance, List.mem_append, mem_posted]

/-- The nodes are reachable, and no msg_id that its sender has still to use is on the way or
has a buffer. -/
structure Accounted (s : System) : Prop where
  reachable : ∀ x, Nodes.Reachable C (P.identity x) (s.node x)
  posted : ∀ x packet m, (x, packet) ∈ s.wire → messageId? packet = some m →
    m < (s.node x).transport.msgIdCounter
  unheard : ∀ x peerId m, (s.node x).transport.msgIdCounter ≤ m →
    (s.node x.other).transport.fragBufs.get? (peerId, m) = none

theorem about_eq_messageId? {t : MeshTransport} {data : Bytes} {addr : Addr} {bufKey : String × ℕ}
    (h : about t data addr = some bufKey) : messageId? data = some bufKey.2 := by
  unfold about at h
  cases hparse : parsePacket data with
  | error e =>
    rw [hparse] at h
    contradiction
  | ok packet =>
    obtain ⟨ptype, sid, payload⟩ := packet
    rw [hparse] at h
    cases ptype with
    | message =>
      obtain ⟨peerId, _, rfl⟩ := Option.map_eq_some_iff.mp h
      simp only [messageId?, hparse]
    | _ => contradiction

/-- A MESSAGE packet leaves with a msg_id that is in use afterwards. -/
theorem emitted_used (n : Node) (env : Env) (e : Event) (h : InFlightTable.Orderly n.transport)
    (packet : Bytes) (dest : Addr) (m : ℕ) (hsent : .sendto packet dest ∈ (n.step C env e).2)
    (hid : messageId? packet = some m) : m < (n.step C env e).1.transport.msgIdCounter := by
  rcases step_emits C n (env, e) h packet dest m hsent hid with
    ⟨⟨peerId, message, rfl⟩, rfl⟩ | ⟨_, inf, hget, _⟩
  · show n.transport.msgIdCounter <
      (send C env n.transport peerId message).state.msgIdCounter
    cases hsession : n.transport.sessions.get? peerId with
    | none =>
      change .sendto packet dest ∈ (send C env n.transport peerId message).effects at hsent
      rw [send_missing C env n.transport peerId message hsession] at hsent
      contradiction
    | some session =>
      rw [(send_loop C env n.transport peerId message session hsession).2.2.2]
      exact Nat.lt_succ_self _
  · exact Nat.lt_of_lt_of_le (h.used m inf hget) (counter_step C n (env, e))

variable {C P} {s : System} {x y : Side} {env : Env} {e : Event}

theorem moved_accounted (h : Accounted C P s)
    (hdatagram : ∀ data addr, e = .datagram data addr → (y.other, data) ∈ s.wire) :
    Accounted C P (advance P s y s.wire ((s.node y).step C env e)) := by
  have horderly := reachable_orderly C (h.reachable y)
  have hcounter : ∀ x, (s.node x).transport.msgIdCounter ≤
      ((advance P s y s.wire ((s.node y).step C env e)).node x).transport.msgIdCounter := by
    intro x
    rcases eq_or_eq_other x y with rfl | rfl
    · rw [advance_self]
      exact counter_step C (s.node x) (env, e)
    · rw [advance_other]
  refine ⟨fun x => ?_, fun x packet m hmem hid => ?_, fun x peerId m hm => ?_⟩
  · rcases eq_or_eq_other x y with rfl | rfl
    · rw [advance_self]
      exact (h.reachable x).next (env, e)
    · rw [advance_other]
      exact h.reachable y.other
  · rcases (mem_advance_wire P).mp hmem with hold | ⟨rfl, hsent⟩
    · exact Nat.lt_of_lt_of_le (h.posted x packet m hold hid) (hcounter x)
    · rw [advance_self]
      exact emitted_used C (s.node x) env e horderly packet _ m hsent hid
  · have hbefore := h.unheard x peerId m (Nat.le_trans (hcounter x) hm)
    rcases eq_or_eq_other x y with rfl | rfl
    · rw [advance_other]
      exact hbefore
    · -- the receiver moves: the packets it hears are about msg_ids the sender has used
      rw [other_other] at hbefore ⊢
      rw [advance_self]
      by_cases hown : ∀ data addr, e ≠ .datagram data addr
      · have hkept := fragBufs_own C (s.node y) env e hown
        exact (congrArg (fun d => d.get? (peerId, m)) hkept).trans hbefore
      · push Not at hown
        obtain ⟨data, addr, rfl⟩ := hown
        refine (fragBufs_dispatch C env (s.node y).transport data addr _ fun habout => ?_).trans hbefore
        have hused := h.posted y.other data m (hdatagram data addr rfl) (about_eq_messageId? habout)
        exact Nat.not_le.mpr hused (Nat.le_trans (hcounter y.other) hm)

theorem reachable_accounted (h : Reachable C P s) : Accounted C P s := by
  refine Runs.reachable_invariant (fun s hs => ?_) (fun s l hs => ?_) h
  · refine ⟨fun x => Runs.Reachable.of_initial (hs.1 x), fun x packet m hmem => ?_,
      fun x peerId m _ => ?_⟩
    · rw [hs.2] at hmem
      contradiction
    · rw [(hs.1 x.other).1.fragBufs]
      rfl
  · have hmove := step_move C P s l
    generalize step C P s l = s' at hmove
    cases hmove with
    | idle => exact hs
    | moved y env e hdatagram => exact moved_accounted hs hdatagram

/-- What stands in the table under a msg_id in use stood there before. -/
theorem entry_origin (n : Node) (env : Env) (e : Event) (h : InFlightTable.Orderly n.transport)
    (m : ℕ) (hused : m < n.transport.msgIdCounter) (inf : InFlight)
    (hget : (n.step C env e).1.transport.inFlight.get? m = some inf) :
    ∃ old, n.transport.inFlight.get? m = some old ∧ inf.packetBytes = old.packetBytes := by
  by_cases hconnect : IsConnect e
  · have hsame := (inFlight_connecting C n env e hconnect).1
    exact ⟨inf, (congrArg (fun d => d.get? m) hsame).symm.trans hget, rfl⟩
  · cases e with
    | connect _ _ | resume _ | timeout _ => exact absurd trivial hconnect
    | send peerId message =>
      refine ⟨inf, ?_, rfl⟩
      exact (send_other C env n.transport peerId message m (Nat.ne_of_lt hused)).symm.trans hget
    | datagram data addr =>
      refine ⟨inf, ?_, rfl⟩
      change (dispatch C env n.transport data addr).state.inFlight.get? m = some inf at hget
      rw [inFlight_dispatch] at hget
      split at hget
      · rw [OrderedDict.get?_erase] at hget
        split at hget
        · contradiction
        · exact hget
      · exact hget
    | retry =>
      change (retrySweep env n.transport).state.inFlight.get? m = some inf at hget
      rw [retrySweep_get? h] at hget
      split at hget
      · contradiction
      · rename_i old hold
        repeat' split at hget
        all_goals first
          | contradiction
          | cases hget
            exact ⟨_, hold, rfl⟩

variable (C) in
/-- A message that `x` has sent: its packets, and no others, carry its msg_id. -/
structure Tracked (s : System) (x : Side) (X : Sending) : Prop where
  orderly : InFlightTable.Orderly (s.node x).transport
  used : X.msgId < (s.node x).transport.msgIdCounter
  wire : ∀ packet, (x, packet) ∈ s.wire → messageId? packet = some X.msgId → packet ∈ X.packets C
  table : ∀ inf, (s.node x).transport.inFlight.get? X.msgId = some inf →
    inf.packetBytes ∈ X.packets C

variable {X : Sending}

theorem moved_tracked (h : Tracked C s x X) :
    Tracked C (advance P s y s.wire ((s.node y).step C env e)) x X := by
  rcases eq_or_eq_other x y with rfl | rfl
  · refine ⟨?_, ?_, fun packet hmem hid => ?_, fun inf hget => ?_⟩
    · rw [advance_self]
      exact orderly_step C (s.node x) (env, e) h.orderly
    · rw [advance_self]
      exact Nat.lt_of_lt_of_le h.used (counter_step C (s.node x) (env, e))
    · rcases (mem_advance_wire P).mp hmem with hold | ⟨_, hsent⟩
      · exact h.wire packet hold hid
      · -- the msg_id is in use, so only the retry loop sends under it
        rcases step_emits C (s.node x) (env, e) h.orderly packet _ X.msgId hsent hid with
          ⟨_, heq⟩ | ⟨_, inf, hget, rfl, _⟩
        · exact absurd heq (Nat.ne_of_lt h.used)
        · exact h.table inf hget
    · rw [advance_self] at hget
      obtain ⟨old, hold, heq⟩ := entry_origin (s.node x) env e h.orderly X.msgId h.used inf hget
      rw [heq]
      exact h.table old hold
  · refine ⟨?_, ?_, fun packet hmem hid => ?_, fun inf hget => ?_⟩
    · rw [advance_other]
      exact h.orderly
    · rw [advance_other]
      exact h.used
    · rcases (mem_advance_wire P).mp hmem with hold | ⟨hself, _⟩
      · exact h.wire packet hold hid
      · exact absurd hself (other_ne y)
    · rw [advance_other] at hget
      exact h.table inf hget

/-- From the call of send() on, all that travels under its msg_id are its packets. -/
theorem tracked_send (hs : Accounted C P s) (x : Side) (env : Env) (pid : String) (message : Bytes)
    (ss : SessionInfo) (hsession : (s.node x).transport.sessions.get? pid = some ss)
    (hsent : (send C env (s.node x).transport pid message).raised = none) :
    Tracked C (step C P s (.act x env (.send pid message))) x
      (sending C env (s.node x).transport ss.sessionKey message) := by
  let t := (s.node x).transport
  let X := sending C env t ss.sessionKey message
  obtain ⟨hsendable, heffects⟩ := send_ok C env t pid message ss hsession hsent
  have hcounter : (send C env t pid message).state.msgIdCounter = t.msgIdCounter + 1 :=
    (send_loop C env t pid message ss hsession).2.2.2
  show Tracked C (advance P s x s.wire ((s.node x).step C env (.send pid message))) x X
  refine ⟨?_, ?_, fun packet hmem hid => ?_, fun inf hget => ?_⟩
  · rw [advance_self]
    exact orderly_send C env t pid message (reachable_orderly C (hs.reachable x))
  · rw [advance_self]
    exact Nat.lt_of_lt_of_eq (Nat.lt_succ_self _) hcounter.symm
  · rcases (mem_advance_wire P).mp hmem with hold | ⟨_, hposted⟩
    · exact absurd (hs.posted x packet _ hold hid) (Nat.lt_irrefl _)
    · have hposted' : .sendto packet (P.addr x.other) ∈ (send C env t pid message).effects := hposted
      rw [heffects] at hposted'
      obtain ⟨pkt, hpkt, hraw⟩ := List.mem_flatMap.mp hposted'
      rw [(Effect.sendto.inj (mem_sendRaw t pkt _ _ hraw)).1]
      exact hpkt
  · rw [advance_self] at hget
    obtain ⟨n, chunk, hchunk, hlast⟩ := exists_last_chunk C env t ss.sessionKey message
    have hentry := send_inFlight C env t pid message ss hsession hsendable n chunk hchunk hlast
    cases Option.some.inj (hget.symm.trans hentry)
    exact (X.mem_packets C _).mpr ⟨n, chunk, hchunk, rfl⟩

end Provenance

section Reception

/-- The fragment index in the header of a MESSAGE packet. -/
def fragmentIdx (packet : Bytes) : ℕ :=
  match parsePacket packet with
  | .ok parsed => (unpackFragHeader parsed.payload).fragIdx
  | .error _ => 0

def isMessage : Effect → Bool
  | .message _ _ _ => true
  | _ => false

/-- The step is the arrival of a packet of this message from `x`. -/
def brings (s : System) (x : Side) (m : ℕ) : Label → Bool
  | .deliver sender _ packet =>
    decide (sender = x ∧ s.carries x packet = true ∧ messageId? packet = some m)
  | .act _ _ _ => false

/-- The step makes the other node's message callbacks fire for this message. -/
def fires (s : System) (x : Side) (m : ℕ) (l : Label) : Bool :=
  brings s x m l && match l with
    | .deliver _ env packet =>
      (dispatch C env (s.node x.other).transport packet (P.addr x)).effects.any isMessage
    | .act _ _ _ => false

/-- The index the step lets into the message's buffer. -/
def letIn (s : System) (x : Side) (peerId : String) (m : ℕ) : Label → List ℕ
  | .deliver sender env packet =>
    if brings s x m (.deliver sender env packet) &&
        (openBuffer (s.node x.other).transport (peerId, m)).isSome then [fragmentIdx packet]
    else []
  | .act _ _ _ => []

def firings (x : Side) (m : ℕ) : System → List Label → ℕ
  | _, [] => 0
  | s, l :: rest => (if fires C P s x m l then 1 else 0) + firings x m (step C P s l) rest

/-- The indices let in on the way, in order. -/
def arrived (x : Side) (peerId : String) (m : ℕ) : System → List Label → List ℕ
  | _, [] => []
  | s, l :: rest => letIn s x peerId m l ++ arrived x peerId m (step C P s l) rest

/-- The other node knows `x` under this id and key, and by its genuine bundle. -/
def InSession (x : Side) (peerId : String) (key : SessionKey) (s : System) : Prop :=
  ∃ session, Holds (s.node x.other).transport (P.addr x) peerId session ∧
    session.sessionKey = key ∧ session.peerBundle = P.bundle C x

variable {C P} {s : System} {x : Side} {X : Sending} {message : Bytes} {peerId : String}
  {kept : Finset ℕ}

theorem fragmentIdx_packet (hX : X.Sendable) {i : ℕ} {chunk : Bytes}
    (hchunk : X.chunks[i]? = some chunk) :
    fragmentIdx (X.packet C i chunk) = i := by
  rw [fragmentIdx, Sending.parse_packet C hX hchunk]
  exact congrArg FragHeader.fragIdx (Sending.unpack_payload C hX hchunk)

theorem any_isMessage_delivery (t : MeshTransport) (addr : Addr) (key : SessionKey) (m : ℕ)
    (hcbs : t.messageCbs ≠ []) :
    (delivery C t addr peerId key m message).any isMessage = true := by
  obtain ⟨cb, rest, hcb⟩ := List.exists_cons_of_ne_nil hcbs
  rw [List.any_eq_true]
  refine ⟨.message cb peerId message, ?_, rfl⟩
  rw [delivery, hcb]
  exact List.mem_append_right _ List.mem_cons_self

/-- What a step does to the message's buffer when it brings no packet of it. -/
theorem buffered_elsewhere (l : Label)
    (h : Buffered (s.node x.other).transport (peerId, X.msgId) X.chunks kept)
    (hnot : brings s x X.msgId l = false) :
    Buffered ((step C P s l).node x.other).transport (peerId, X.msgId) X.chunks kept := by
  refine Buffered.of_get?_eq h ?_
  cases l with
  | act y env op =>
    rw [step]
    rcases eq_or_eq_other x.other y with rfl | heq
    · rw [advance_self]
      have hkept := fragBufs_own C (s.node x.other) env (event C P x.other op)
        (fun data addr heq => by cases op <;> contradiction)
      exact congrArg (fun d => d.get? (peerId, X.msgId)) hkept
    · rw [heq, advance_other]
  | deliver sender env packet =>
    rw [step]
    split
    · rename_i hmem
      rcases eq_or_eq_other x sender with rfl | heq
      · rw [advance_self]
        refine fragBufs_dispatch C env (s.node x.other).transport packet _ _ fun habout => ?_
        have hid := about_eq_messageId? habout
        simp [brings, hmem, hid] at hnot
      · rw [heq, advance_other]
    · rfl

/-- One step of the run is one item for a collector of the fragment indices, or none. -/
structure Collected (C : Suite) (P : Parties) (s : System) (x : Side) (X : Sending) (peerId : String)
    (kept kept' : Finset ℕ) (l : Label) : Prop where
  subset : kept' ⊆ Finset.range X.total
  buffered : Buffered ((step C P s l).node x.other).transport (peerId, X.msgId) X.chunks kept'
  firings : ∀ rest, Collector.firings (Finset.range X.total) kept (letIn s x peerId X.msgId l ++ rest) =
    (if fires C P s x X.msgId l then 1 else 0) +
      Collector.firings (Finset.range X.total) kept' rest
  range : ∀ i ∈ letIn s x peerId X.msgId l, i ∈ Finset.range X.total

/-- A step that lets nothing in. -/
theorem collected_none {l : Label} (hkept : kept ⊆ Finset.range X.total)
    (hbuf : Buffered ((step C P s l).node x.other).transport (peerId, X.msgId) X.chunks kept)
    (hletIn : letIn s x peerId X.msgId l = []) (hsilent : fires C P s x X.msgId l = false) :
    Collected C P s x X peerId kept kept l where
  subset := hkept
  buffered := hbuf
  firings := by
    intro rest
    rw [hletIn, hsilent, List.nil_append, if_neg Bool.false_ne_true, Nat.zero_add]
  range := by
    intro i hi
    rw [hletIn] at hi
    contradiction

theorem exists_collected (haead : C.AeadCorrect) (htracked : Tracked C s x X)
    (hsession : InSession C P x peerId X.key s)
    (hgenuine : Genuine C X message (P.bundle C x).verifyKey)
    (hcbs : (s.node x.other).transport.messageCbs ≠ []) (hkept : kept ⊆ Finset.range X.total)
    (hbuf : Buffered (s.node x.other).transport (peerId, X.msgId) X.chunks kept) (l : Label) :
    ∃ kept', Collected C P s x X peerId kept kept' l := by
  by_cases hbrings : brings s x X.msgId l = true
  · cases l with
    | act _ _ _ => contradiction
    | deliver sender env packet =>
      obtain ⟨rfl, hmem, hid⟩ := of_decide_eq_true hbrings
      obtain ⟨i, chunk, hchunk, rfl⟩ := (X.mem_packets C packet).mp
        (htracked.wire packet ((carries_iff s sender packet).mp hmem) hid)
      obtain ⟨session, hholds, hkey, hbundle⟩ := hsession
      let t := (s.node sender.other).transport
      have hgenuine' : Genuine C X message session.peerBundle.verifyKey := by
        rw [hbundle]
        exact hgenuine
      have hnext : ((step C P s (.deliver sender env (X.packet C i chunk))).node
          sender.other).transport =
          (dispatch C env t (X.packet C i chunk) (P.addr sender)).state := by
        rw [step, if_pos hmem, advance_self]
        rfl
      have hi : i ∈ Finset.range X.total :=
        Finset.mem_range.mpr (List.getElem?_eq_some_iff.mp hchunk).1
      have hfires : fires C P s sender X.msgId (.deliver sender env (X.packet C i chunk)) =
          (dispatch C env t (X.packet C i chunk) (P.addr sender)).effects.any isMessage := by
        rw [fires, hbrings, Bool.true_and]
      by_cases hopen : openBuffer t (peerId, X.msgId) = none
      · -- no buffer and no room for one: the packet is turned away
        obtain ⟨hstate, heffects⟩ := receive_turnedAway C haead env hholds X hkey hgenuine.sendable i
          chunk hchunk hopen
        have hletIn : letIn s sender peerId X.msgId (.deliver sender env (X.packet C i chunk)) = [] := by
          simp [letIn, hopen, t]
        have hsilent : fires C P s sender X.msgId (.deliver sender env (X.packet C i chunk)) = false := by
          rw [hfires, heffects]
          rfl
        exact ⟨kept, collected_none hkept (Buffered.of_get?_eq hbuf (by rw [hnext, hstate])) hletIn
          hsilent⟩
      · obtain ⟨hbuf', heffects⟩ := receive_kept C haead env hholds X message hkey hgenuine' i chunk
          hchunk kept hkept hbuf hopen
        have hletIn : letIn s sender peerId X.msgId (.deliver sender env (X.packet C i chunk)) = [i] := by
          rw [letIn, hbrings, Bool.true_and, if_pos (Option.isSome_iff_ne_none.mpr hopen),
            fragmentIdx_packet hgenuine.sendable hchunk]
        have hfired : fires C P s sender X.msgId (.deliver sender env (X.packet C i chunk)) =
            decide (insert i kept = Finset.range X.total) := by
          rw [hfires, heffects]
          by_cases hfull : insert i kept = Finset.range X.total
          · rw [if_pos hfull, any_isMessage_delivery t _ _ _ hcbs, decide_eq_true hfull]
          · rw [if_neg hfull, decide_eq_false hfull]
            rfl
        refine ⟨collect (Finset.range X.total) kept i, collect_subset hkept hi, ?_, fun rest => ?_,
          fun j hj => ?_⟩
        · exact Buffered.of_get?_eq hbuf' (by rw [hnext])
        · rw [hletIn, hfired]
          simp only [List.singleton_append, Collector.firings, decide_eq_true_eq]
        · rw [hletIn] at hj
          rw [List.mem_singleton.mp hj]
          exact hi
  · have hbrings' := Bool.eq_false_iff.mpr hbrings
    have hletIn : letIn s x peerId X.msgId l = [] := by
      cases l with
      | act _ _ _ => rfl
      | deliver sender env packet =>
        rw [letIn, hbrings', Bool.false_and]
        rfl
    have hsilent : fires C P s x X.msgId l = false := by
      unfold fires
      rw [hbrings', Bool.false_and]
    exact ⟨kept, collected_none hkept (buffered_elsewhere l hbuf hbrings') hletIn hsilent⟩

theorem step_tracked (h : Tracked C s x X) (l : Label) : Tracked C (step C P s l) x X := by
  have hmove := step_move C P s l
  generalize step C P s l = s' at hmove
  cases hmove with
  | idle => exact h
  | moved y env e _ => exact moved_tracked h

theorem step_messageCbs (x : Side) (l : Label) :
    ((step C P s l).node x).transport.messageCbs = (s.node x).transport.messageCbs := by
  have hmove := step_move C P s l
  generalize step C P s l = s' at hmove
  cases hmove with
  | idle => rfl
  | moved y env e _ =>
    rcases eq_or_eq_other x y with rfl | rfl
    · rw [advance_self]
      exact (nodeStep_sameDevice C (s.node x) (env, e)).messageCbs
    · rw [advance_other]

/-- Along a run within the session, the callbacks fire as a collector of the indices does. -/
theorem firings_run (haead : C.AeadCorrect) (hgenuine : Genuine C X message (P.bundle C x).verifyKey)
    (labels : List Label) (htracked : Tracked C s x X)
    (hsession : Runs.Always (step C P) (fun s _ => InSession C P x peerId X.key s) s labels)
    (hcbs : (s.node x.other).transport.messageCbs ≠ []) (hkept : kept ⊆ Finset.range X.total)
    (hbuf : Buffered (s.node x.other).transport (peerId, X.msgId) X.chunks kept) :
    firings C P x X.msgId s labels =
        Collector.firings (Finset.range X.total) kept (arrived C P x peerId X.msgId s labels) ∧
      ∀ i ∈ arrived C P x peerId X.msgId s labels, i ∈ Finset.range X.total := by
  induction labels generalizing s kept with
  | nil => exact ⟨rfl, fun i hi => absurd hi List.not_mem_nil⟩
  | cons l rest ih =>
    obtain ⟨hnow, hlater⟩ := hsession
    obtain ⟨kept', hcollected⟩ := exists_collected haead htracked hnow hgenuine hcbs hkept hbuf l
    obtain ⟨hcount, hrange⟩ := ih (step_tracked htracked l) hlater (by rwa [step_messageCbs])
      hcollected.subset hcollected.buffered
    refine ⟨?_, fun i hi => ?_⟩
    · rw [arrived, hcollected.firings, firings, hcount]
    · rcases List.mem_append.mp hi with hi | hi
      · exact hcollected.range i hi
      · exact hrange i hi

/-- Right after the call of send() the receiver has nothing of the message. -/
theorem buffered_send (hs : Accounted C P s) (x : Side) (env : Env) (pid : String) (message : Bytes)
    (key : SessionKey) (peerId : String) :
    Buffered ((step C P s (.act x env (.send pid message))).node x.other).transport
      (peerId, (sending C env (s.node x).transport key message).msgId)
      (sending C env (s.node x).transport key message).chunks ∅ := by
  refine .absent ?_
  rw [step, advance_other]
  exact hs.unheard x peerId _ le_rfl

/-- Within the session the callbacks fire at most once for the call of send() if and only if the
fragments let in cannot be cut into two parts that both bring the whole message. -/
theorem delivered_at_most_once_iff (haead : C.AeadCorrect)
    (hown : ∀ x, HonestIdentity C (P.identity x)) (hs : Reachable C P s) (x : Side) (env : Env)
    (pid peerId : String) (message : Bytes) (ss : SessionInfo)
    (hsession : (s.node x).transport.sessions.get? pid = some ss)
    (hsent : (send C env (s.node x).transport pid message).raised = none)
    (hcbs : (s.node x.other).transport.messageCbs ≠ []) (labels : List Label)
    (hin : Runs.Always (step C P) (fun s _ => InSession C P x peerId ss.sessionKey s)
      (step C P s (.act x env (.send pid message))) labels) :
    firings C P x (s.node x).transport.msgIdCounter (step C P s (.act x env (.send pid message)))
        labels ≤ 1 ↔
      ¬ ∃ l₁ l₂, arrived C P x peerId (s.node x).transport.msgIdCounter
          (step C P s (.act x env (.send pid message))) labels = l₁ ++ l₂ ∧
        Covers (Finset.range (sending C env (s.node x).transport ss.sessionKey message).total) l₁ ∧
        Covers (Finset.range (sending C env (s.node x).transport ss.sessionKey message).total)
          l₂ := by
  have haccounted := reachable_accounted hs
  let X := sending C env (s.node x).transport ss.sessionKey message
  have hidentity := (reachable_device C _ _ (haccounted.reachable x)).1
  have hsign : C.SignCorrect (s.node x).transport.identity.signingKeypair := by
    rw [hidentity]
    exact (hown x).sign
  have hgenuine : Genuine C X message (P.bundle C x).verifyKey := by
    have hgenuine := genuine_sending C env (s.node x).transport ss.sessionKey message hsign
      (send_ok C env (s.node x).transport pid message ss hsession hsent).1
    rw [hidentity] at hgenuine
    exact hgenuine
  have hpos : X.total ≠ 0 := fun hzero => hgenuine.nonempty (List.length_eq_zero_iff.mp hzero)
  obtain ⟨hcount, hrange⟩ := firings_run haead hgenuine labels
    (tracked_send haccounted x env pid message ss hsession hsent) hin
    (by rwa [step_messageCbs]) (Finset.empty_subset _)
    (buffered_send haccounted x env pid message ss.sessionKey peerId)
  show firings C P x X.msgId _ labels ≤ 1 ↔ _
  rw [hcount]
  exact firings_le_one_iff (Finset.nonempty_range_iff.mpr hpos).ne_empty _ hrange

end Reception

section Lossless

variable {C P}

/-- The same nodes, and nothing on the way that is not on the way here too. -/
def Within (s s' : System) : Prop := s.node = s'.node ∧ s.wire ⊆ s'.wire

theorem within_advance {s s' : System} (h : Within s s') (x : Side) (wire : List (Side × Bytes))
    (hwire : wire ⊆ s'.wire) (out : Node × List Effect) :
    Within (advance P s x wire out) (advance P s' x s'.wire out) := by
  refine ⟨?_, fun p hp => ?_⟩
  · rw [advance, advance, h.1]
  · rcases List.mem_append.mp hp with hold | hnew
    · exact List.mem_append_left _ (hwire hold)
    · exact List.mem_append_right _ hnew

theorem within_step {s s' : System} (h : Within s s') (l : Label) :
    Within (Pair.step C P s l) s' ∨ Within (Pair.step C P s l) (step C P s' l) := by
  cases l with
  | act x env op =>
    rw [Pair.step, step, h.1]
    exact Or.inr (within_advance h x s.wire h.2 _)
  | deliver sender env packet =>
    rw [Pair.step, step, h.1]
    split
    · rename_i hmem
      rw [if_pos ((carries_iff s' sender packet).mpr (h.2 hmem))]
      exact Or.inr (within_advance h sender.other _ (List.Subset.trans List.erase_subset h.2) _)
    · exact Or.inl h

/-- Every state of the network that loses nothing is reached here. -/
theorem reachable_of_lossless {s : System} (h : Runs.Reachable (Pair.step C P) (Initial P) s) :
    ∃ s', Reachable C P s' ∧ Within s s' := by
  refine Runs.reachable_invariant (I := fun s => ∃ s', Reachable C P s' ∧ Within s s')
    (fun s hs => ⟨s, .of_initial hs, rfl, List.Subset.refl _⟩) (fun s l hs => ?_) h
  obtain ⟨s', hreach, hwithin⟩ := hs
  rcases within_step hwithin l with hidle | hmoved
  · exact ⟨s', hreach, hidle⟩
  · exact ⟨_, hreach.next l, hmoved⟩

end Lossless

section Stub

open KeyAgreement

/-- Alpha and bravo have made a session here and done nothing else. -/
theorem exists_connected : ∃ s : System, Reachable stub stubParties s ∧
    Established (s.node .a).transport bravoAddr sharedKey (stubParties.bundle stub .b) ∧
    Established (s.node .b).transport alphaAddr sharedKey (stubParties.bundle stub .a) ∧
    (s.node .a).transport.msgIdCounter = 1 ∧ (s.node .b).transport.messageCbs = [0] ∧
    (s.node .b).transport.fragBufs = .empty := by
  obtain ⟨ta, hta⟩ := init_ok alpha (by decide)
  obtain ⟨tb, htb⟩ := init_ok bravo (by decide)
  have hfreshA := fresh_startWith alpha ta hta [0] [] [] [] .empty
  have hfreshB := fresh_startWith bravo tb htb [0] [] [] [] .empty
  let na : Node := ⟨startWith ta [0] [] [] [] .empty, []⟩
  let nb : Node := ⟨startWith tb [0] [] [] [] .empty, []⟩
  have hna : Started alpha na := ⟨hfreshA, rfl⟩
  have hnb : Started bravo nb := ⟨hfreshB, rfl⟩
  obtain ⟨wireA, hwireA, _⟩ := announced_wire stub alpha honest_alpha
  obtain ⟨wireB, hwireB, _⟩ := announced_wire stub bravo honest_bravo
  obtain ⟨a₁, a₂, a₃, a₄, b₁, b₂, _, _, h₁, h₂, h₃, h₄, h₅, h₆, _, ⟨hestB, hsameB⟩, hestA, hsameA⟩ :=
    exchange_steps (P := stubParties) stub_aeadCorrect honest_stubParties hna hnb ⟨rfl, rfl⟩
      (stub_offer .a stillEnv) hwireA hwireB
  have hreach : Runs.Reachable (Pair.step stub stubParties) (Initial stubParties) (pair a₄ b₂ []) := by
    rw [← h₆, ← h₅, ← h₄, ← h₃, ← h₂, ← h₁]
    exact ((((((Runs.Reachable.of_initial (initial_pair na nb hna hnb)).next _).next _).next _).next
      _).next _).next _
  obtain ⟨s, hs, hnode, _⟩ := reachable_of_lossless hreach
  refine ⟨s, hs, ?_⟩
  rw [← hnode]
  exact ⟨hestA, hestB, hsameA.msgIdCounter.trans hfreshA.msgIdCounter, hsameB.messageCbs,
    hsameB.fragBufs.trans hfreshB.fragBufs⟩

/-- Alpha has sent a message of one fragment, whose packet is on its way. -/
structure OnTheWay (s : System) (ss sb : SessionInfo) (whole : Bytes) : Prop where
  reachable : Reachable stub stubParties s
  session : (s.node .a).transport.sessions.get? "bravo" = some ss
  sent : (send stub stillEnv (s.node .a).transport "bravo" shortMessage).raised = none
  callbacks : (s.node .b).transport.messageCbs = [0]
  chunks : (sending stub stillEnv (s.node .a).transport ss.sessionKey shortMessage).chunks = [whole]
  wire : (Side.a, (sending stub stillEnv (s.node .a).transport ss.sessionKey shortMessage).packet
    stub 0 whole) ∈ (step stub stubParties s (.act .a stillEnv (.send "bravo" shortMessage))).wire
  reception : Reception stub (s.node .b).transport alphaAddr "alpha" sb
    (sending stub stillEnv (s.node .a).transport ss.sessionKey shortMessage) shortMessage
  bundle : sb.peerBundle = stubParties.bundle stub .a
  empty : (s.node .b).transport.fragBufs = .empty

theorem onTheWay_of_connected {s : System} (hs : Reachable stub stubParties s)
    (hestA : Established (s.node .a).transport bravoAddr sharedKey (stubParties.bundle stub .b))
    (hestB : Established (s.node .b).transport alphaAddr sharedKey (stubParties.bundle stub .a))
    (hcounter : (s.node .a).transport.msgIdCounter = 1)
    (hcbs : (s.node .b).transport.messageCbs = [0])
    (hempty : (s.node .b).transport.fragBufs = .empty) : ∃ ss sb whole, OnTheWay s ss sb whole ∧
      Holds (s.node .a).transport bravoAddr "bravo" ss := by
  have haccounted := reachable_accounted hs
  obtain ⟨hidentity, hudp⟩ := reachable_device stub _ _ (haccounted.reachable .a)
  obtain ⟨ss, hholdsA, haddrA, hkeyA, _⟩ := holds_of_established hestA
  obtain ⟨sb, hholdsB, _, hkeyB, hbundleB⟩ := holds_of_established hestB
  obtain ⟨whole, hchunks⟩ := chunks_shortMessage stillEnv (s.node .a).transport ss.sessionKey
  let X := sending stub stillEnv (s.node .a).transport ss.sessionKey shortMessage
  have hsendable : X.Sendable := sendable_first stub stillEnv ss.sessionKey hcounter (by decide)
  have hsent := (send_raised_iff stub stillEnv (s.node .a).transport "bravo" shortMessage ss
    hholdsA.session).mpr hsendable
  have hsign : stub.SignCorrect (s.node .a).transport.identity.signingKeypair := by
    rw [hidentity]
    exact honest_alpha.sign
  have hgenuine := genuine_sending stub stillEnv (s.node .a).transport ss.sessionKey shortMessage hsign
    hsendable
  rw [hidentity] at hgenuine
  refine ⟨ss, sb, whole, ⟨hs, hholdsA.session, hsent, hcbs, hchunks, ?_,
    ⟨hholdsB, hkeyB.trans hkeyA.symm, by rw [hbundleB]; exact hgenuine⟩, hbundleB, hempty⟩, hholdsA⟩
  refine (mem_advance_wire stubParties).mpr (Or.inr ⟨rfl, ?_⟩)
  have hemitted := sendto_packet stub stillEnv (s.node .a).transport "bravo" shortMessage ss
    hholdsA.session hsent hudp 0 whole (by rw [hchunks]; rfl)
  rw [haddrA] at hemitted
  exact hemitted

theorem exists_onTheWay : ∃ s ss sb whole, OnTheWay s ss sb whole := by
  obtain ⟨s, hs, hestA, hestB, hcounter, hcbs, hempty⟩ := exists_connected
  obtain ⟨ss, sb, whole, h, _⟩ := onTheWay_of_connected hs hestA hestB hcounter hcbs hempty
  exact ⟨s, ss, sb, whole, h⟩

theorem inSession_of_same {t : MeshTransport} {s' : System} {session : SessionInfo} {key : SessionKey}
    (hholds : Holds t alphaAddr "alpha" session) (hkey : session.sessionKey = key)
    (hbundle : session.peerBundle = stubParties.bundle stub .a)
    (hsame : SameHandshakes t (s'.node .b).transport) :
    InSession stub stubParties .a "alpha" key s' := by
  obtain ⟨session', hholds', hkey', hbundle'⟩ := holds_of_same hholds hsame
  exact ⟨session', hholds', hkey'.trans hkey, hbundle'.trans hbundle⟩

/-- The same packet delivered twice makes the callbacks fire twice. -/
theorem copy_fires_again : ∃ (s : System) (ss : SessionInfo) (labels : List Label),
    Reachable stub stubParties s ∧ (s.node .a).transport.sessions.get? "bravo" = some ss ∧
    (send stub stillEnv (s.node .a).transport "bravo" shortMessage).raised = none ∧
    Runs.Always (step stub stubParties)
      (fun s _ => InSession stub stubParties .a "alpha" ss.sessionKey s)
      (step stub stubParties s (.act .a stillEnv (.send "bravo" shortMessage))) labels ∧
    firings stub stubParties .a (s.node .a).transport.msgIdCounter
      (step stub stubParties s (.act .a stillEnv (.send "bravo" shortMessage))) labels = 2 := by
  obtain ⟨s, ss, sb, whole, h⟩ := exists_onTheWay
  let X := sending stub stillEnv (s.node .a).transport ss.sessionKey shortMessage
  let s₁ := step stub stubParties s (.act .a stillEnv (.send "bravo" shortMessage))
  let p := X.packet stub 0 whole
  let t := (s.node .b).transport
  have hchunk : X.chunks[0]? = some whole := by rw [h.chunks]; rfl
  have hsendable := h.reception.genuine.sendable
  have hid : messageId? p = some X.msgId := messageId?_packet stub X hsendable hchunk
  have hcbs : t.messageCbs ≠ [] := by
    rw [h.callbacks]
    exact List.cons_ne_nil _ _
  -- bravo takes the packet, twice over
  obtain ⟨hsame, hnone, hfirst⟩ := copy_single stub stub_aeadCorrect h.reception h.chunks (.refl t)
    (by rw [h.empty]; rfl) (by rw [h.empty]; decide) stillEnv
  let t₂ := receive stub t ⟨stillEnv, p, alphaAddr⟩
  have hroom : t₂.fragBufs.size < maxReassemblyBufs := by
    rw [OrderedDict.size_eq_zero t₂.fragBufs fun bufKey => ?_]
    · decide
    · by_cases hkey : bufKey = ("alpha", X.msgId)
      · rw [hkey]
        exact hnone
      · have habout := about_packet stub h.reception 0 ⟨stillEnv, p, alphaAddr⟩ ⟨rfl, whole, hchunk, rfl⟩
        refine (fragBufs_dispatch stub stillEnv t p alphaAddr bufKey fun hother => ?_).trans ?_
        · exact hkey (Option.some.inj (hother.symm.trans habout))
        · rw [h.empty]
          rfl
  obtain ⟨_, _, hsecond⟩ := copy_single stub stub_aeadCorrect h.reception h.chunks hsame hnone hroom
    stillEnv
  have hnode₁ : (s₁.node .b).transport = t :=
    congrArg Node.transport (advance_other stubParties s .a s.wire _)
  have hfires : ∀ s' : System, (Side.a, p) ∈ s'.wire → caused stub (s'.node .b).transport
      ⟨stillEnv, p, alphaAddr⟩ = delivery stub t alphaAddr "alpha" X.key X.msgId shortMessage →
      fires stub stubParties s' .a X.msgId (.deliver .a stillEnv p) = true := by
    intro s' hmem hcaused
    have hany : (dispatch stub stillEnv (s'.node .b).transport p alphaAddr).effects.any isMessage =
        true := by
      have heq : (delivery stub t alphaAddr "alpha" X.key X.msgId shortMessage).any isMessage = true :=
        any_isMessage_delivery t alphaAddr X.key X.msgId hcbs
      rw [← hcaused] at heq
      exact heq
    have hbrings : brings s' .a X.msgId (.deliver .a stillEnv p) = true :=
      decide_eq_true ⟨rfl, (carries_iff s' .a p).mpr hmem, hid⟩
    unfold fires
    rw [hbrings, Bool.true_and]
    exact hany
  let s₂ := step stub stubParties s₁ (.deliver .a stillEnv p)
  have hstep : s₂ = advance stubParties s₁ .b s₁.wire
      ((s₁.node .b).step stub stillEnv (.datagram p alphaAddr)) :=
    if_pos ((carries_iff s₁ .a p).mpr h.wire)
  have hnode₂ : (s₂.node .b).transport = t₂ := by
    rw [hstep, advance_self]
    show (dispatch stub stillEnv (s₁.node .b).transport p alphaAddr).state = t₂
    rw [hnode₁]
    rfl
  have hwire₂ : (Side.a, p) ∈ s₂.wire := by
    rw [hstep]
    exact (mem_advance_wire stubParties).mpr (Or.inl h.wire)
  refine ⟨s, ss, [.deliver .a stillEnv p, .deliver .a stillEnv p], h.reachable, h.session, h.sent,
    ⟨?_, ?_, trivial⟩, ?_⟩
  · exact inSession_of_same h.reception.holds h.reception.key h.bundle (by rw [hnode₁]; exact .refl t)
  · exact inSession_of_same h.reception.holds h.reception.key h.bundle (by
      show SameHandshakes t (s₂.node .b).transport
      rw [hnode₂]
      exact hsame)
  · have hone := hfires s₁ h.wire (by rw [hnode₁]; exact hfirst)
    have htwo := hfires s₂ hwire₂ (by rw [hnode₂]; exact hsecond)
    show (if fires stub stubParties s₁ .a X.msgId (.deliver .a stillEnv p) then 1 else 0) +
      ((if fires stub stubParties s₂ .a X.msgId (.deliver .a stillEnv p) then 1 else 0) + 0) = 2
    rw [hone, htwo]
    rfl

/-- One copy: nothing can be cut in two. -/
theorem delivered_at_most_once_iff_single : ∃ (s : System) (ss : SessionInfo) (d : Label),
    Reachable stub stubParties s ∧
    firings stub stubParties .a (s.node .a).transport.msgIdCounter
      (step stub stubParties s (.act .a stillEnv (.send "bravo" shortMessage))) [d] ≤ 1 ∧
    InSession stub stubParties .a "alpha" ss.sessionKey
      (step stub stubParties s (.act .a stillEnv (.send "bravo" shortMessage))) := by
  obtain ⟨s, ss, sb, whole, h⟩ := exists_onTheWay
  let X := sending stub stillEnv (s.node .a).transport ss.sessionKey shortMessage
  let s₁ := step stub stubParties s (.act .a stillEnv (.send "bravo" shortMessage))
  let d : Label := .deliver .a stillEnv (X.packet stub 0 whole)
  have hnode₁ : (s₁.node .b).transport = (s.node .b).transport :=
    congrArg Node.transport (advance_other stubParties s .a s.wire _)
  have hin : InSession stub stubParties .a "alpha" ss.sessionKey s₁ :=
    inSession_of_same h.reception.holds h.reception.key h.bundle (by rw [hnode₁]; exact .refl _)
  refine ⟨s, ss, d, h.reachable, ?_, hin⟩
  refine (delivered_at_most_once_iff stub_aeadCorrect honest_stubParties h.reachable .a stillEnv "bravo"
    "alpha" shortMessage ss h.session h.sent (by
      show (s.node .b).transport.messageCbs ≠ []
      rw [h.callbacks]
      exact List.cons_ne_nil _ _) [d] ⟨hin, trivial⟩).mpr ?_
  rintro ⟨l₁, l₂, heq, hfirst, hsecond⟩
  have htotal : X.total = 1 := by rw [Sending.total, h.chunks, List.length_singleton]
  have hmem : ∀ l, Covers (Finset.range X.total) l → 0 < l.length := fun l hl =>
    List.length_pos_of_mem (hl 0 (Finset.mem_range.mpr (by rw [htotal]; exact Nat.one_pos)))
  have hone := hmem l₁ hfirst
  have htwo := hmem l₂ hsecond
  have hlen := congrArg List.length heq
  rw [arrived, arrived, List.append_nil, List.length_append] at hlen
  have hshort : (letIn s₁ .a "alpha" X.msgId d).length ≤ 1 := by
    rw [letIn]
    split <;> simp
  change (letIn s₁ .a "alpha" X.msgId d).length = _ at hlen
  omega

end Stub

end Mesim.ReplayNetwork
