import Mathlib.Data.Finset.Dedup
import Mesim.Answers
import Mesim.FragmentDelivery
import Mesim.Outcomes

/-!
Nodes in conversation.
Any number of nodes hold sessions with each other and send messages, while the packets and
the acknowledgements arrive in any order, each once. Every message stands in one of three
phases: some of its packets are on their way, or its acknowledgement is, or it is settled.
A step moves one message to its next phase and leaves the others where they are.
-/
namespace Mesim.Conversations

open Octets TextCodec Crypto Identity Packet Transport Operations Dispatch Nodes Fragments
open Reassembly FragmentDelivery InFlightTable Answers Collector MeshTransport Outcome

section Model

/-- A message that a call of send() has taken, with the msg_id that it returned. -/
structure Taken (N : Type*) where
  sender : N
  receiver : N
  msgId : ℕ
  message : Bytes

/-- The network, what its nodes have taken, and the callbacks that they have called. -/
structure Conversation (N : Type*) where
  network : Network N
  taken : List (Taken N)
  calls : List (N × Effect)

inductive Step (N : Type*) where
  | send (sender receiver : N) (env : Env) (message : Bytes)
  | deliver (delivery : Delivery N)
  | sweep (node : N) (env : Env)

def start {N : Type*} (node : N → MeshTransport) : Conversation N := ⟨⟨node, []⟩, [], []⟩

/-- The calls of callbacks among the effects. -/
def called {N : Type*} (i : N) (effects : List Effect) : List (N × Effect) :=
  (effects.filter fun e => match e with
    | .sendto _ _ => false
    | _ => true).map fun e => (i, e)

variable (C : Suite) {N : Type*} [DecidableEq N] (addr : N → Addr) (name : N → String)

/-- A node takes a step: its packets go on the wire. -/
def act (s : Conversation N) (wire : List Datagram) (i : N) (out : Outcome) : Conversation N :=
  { s with
    network := ⟨Function.update s.network.node i out.state, wire ++ sent (addr i) out.effects⟩
    calls := s.calls ++ called i out.effects }

def step (s : Conversation N) : Step N → Conversation N
  | .send i j env message =>
    let t := s.network.node i
    let out := Operations.send C env t (name j) message
    { act addr s s.network.wire i out with
      taken := if out.raised = none then s.taken ++ [⟨i, j, t.msgIdCounter, message⟩]
        else s.taken }
  | .deliver l =>
    if Arrives addr (s.network, l) then
      act addr s (s.network.wire.erase l.datagram) l.receiver
        (dispatch C l.env (s.network.node l.receiver) l.datagram.data l.datagram.source)
    else s
  | .sweep i env => act addr s s.network.wire i (retrySweep env (s.network.node i))

/-- How many messages to a node are in flight. -/
def underway (s : Conversation N) (j : N) : ℕ :=
  (s.taken.filter fun m => m.receiver = j ∧
    ((s.network.node m.sender).inFlight.get? m.msgId).isSome).length

/-- A node is sent nothing while as many messages to it are in flight as it can reassemble at
once, and no sweep finds a message overdue. -/
def Unhurried (s : Conversation N) : Step N → Prop
  | .send _ j _ _ => underway s j < maxReassemblyBufs
  | .deliver _ => True
  | .sweep i env => due env (s.network.node i) = []

/-- Nodes with nothing unfinished, whose sessions are each known to both sides. -/
structure Acquainted (node : N → MeshTransport) : Prop where
  opened : ∀ i, (node i).udpTransport = true
  sign : ∀ i, C.SignCorrect (node i).identity.signingKeypair
  fragBufs : ∀ i bufKey, (node i).fragBufs.get? bufKey = none
  inFlight : ∀ i m, (node i).inFlight.get? m = none
  session : ∀ i j session, (node i).sessions.get? (name j) = some session →
    session.peerAddr = addr j ∧ (node i).sessionsByAddr.get? (addr j) = some (name j) ∧
    ∃ session', Holds (node j) (addr i) (name i) session' ∧
      session'.sessionKey = session.sessionKey ∧
      session'.peerBundle.verifyKey = (node i).identity.signingKeypair.verifyKey

def messageCalls (node : N → MeshTransport) (m : Taken N) : List (N × Effect) :=
  (node m.receiver).messageCbs.map fun cb => (m.receiver, .message cb (name m.sender) m.message)

def ackCalls (node : N → MeshTransport) (m : Taken N) : List (N × Effect) :=
  (node m.sender).ackCbs.map fun cb => (m.sender, .ackReceived cb m.msgId)

/-- A message's whole outcome: each side's callbacks once. -/
def outcome (node : N → MeshTransport) (m : Taken N) : List (N × Effect) :=
  messageCalls name node m ++ ackCalls node m

end Model

section Phases

variable (C : Suite) {N : Type*} [DecidableEq N] (addr : N → Addr) (name : N → String)

/-- A message and the packets it was cut into. -/
structure Letter (N : Type*) where
  taken : Taken N
  cut : Sending

inductive Phase where
  | outstanding (missing : Finset ℕ)
  | answered
  | settled

namespace Phase

/-- The fragments that the receiver keeps. -/
def kept (total : ℕ) : Phase → Finset ℕ
  | outstanding missing => Finset.range total \ missing
  | answered | settled => ∅

def flying : Phase → Bool
  | outstanding _ | answered => true
  | settled => false

/-- The phase after the arrival of a missing packet. -/
def without (missing : Finset ℕ) (i : ℕ) : Phase :=
  if missing.erase i = ∅ then answered else outstanding (missing.erase i)

end Phase

namespace Letter

def bufKey (ℓ : Letter N) : String × ℕ := (name ℓ.taken.sender, ℓ.taken.msgId)

def piece (ℓ : Letter N) (i : ℕ) : Datagram :=
  ⟨addr ℓ.taken.sender, addr ℓ.taken.receiver, ℓ.cut.packet C i (ℓ.cut.chunks.getD i [])⟩

def ack (node : N → MeshTransport) (ℓ : Letter N) : Datagram :=
  ⟨addr ℓ.taken.receiver, addr ℓ.taken.sender,
    ackPacket C (node ℓ.taken.receiver).senderId ℓ.cut.key ℓ.taken.msgId⟩

end Letter

/-- What is on its way because of a message. -/
noncomputable def onWire (node : N → MeshTransport) (p : Letter N × Phase) : List Datagram :=
  match p.2 with
  | .outstanding missing => missing.toList.map (p.1.piece C addr)
  | .answered => [p.1.ack C addr node]
  | .settled => []

/-- The callbacks that a message has had called. -/
def reported (node : N → MeshTransport) (p : Letter N × Phase) : List (N × Effect) :=
  match p.2 with
  | .outstanding _ => []
  | .answered => messageCalls name node p.1.taken
  | .settled => outcome name node p.1.taken

/-- A message between two nodes that hold a session with each other. -/
structure Posted (node : N → MeshTransport) (ℓ : Letter N) : Prop where
  msgId : ℓ.cut.msgId = ℓ.taken.msgId
  reception : ∃ session, Reception C (node ℓ.taken.receiver) (addr ℓ.taken.sender)
    (name ℓ.taken.sender) session ℓ.cut ℓ.taken.message
  back : ∃ session, Holds (node ℓ.taken.sender) (addr ℓ.taken.receiver) (name ℓ.taken.receiver)
    session ∧ session.sessionKey = ℓ.cut.key

/-- What the two nodes hold of a message in its phase. -/
structure Stands (node : N → MeshTransport) (p : Letter N × Phase) : Prop where
  missing : ∀ missing, p.2 = .outstanding missing →
    missing.Nonempty ∧ missing ⊆ Finset.range p.1.cut.total
  buffered : Buffered (node p.1.taken.receiver) (p.1.bufKey name) p.1.cut.chunks
    (p.2.kept p.1.cut.total)
  inFlight : ((node p.1.taken.sender).inFlight.get? p.1.taken.msgId).isSome = p.2.flying

/-- The messages taken so far account for the state. -/
structure Tracks (node : N → MeshTransport) (s : Conversation N)
    (letters : List (Letter N × Phase)) : Prop where
  same : ∀ i, SameHandshakes (node i) (s.network.node i)
  ackCbs : ∀ i, (s.network.node i).ackCbs = (node i).ackCbs
  taken : s.taken = letters.map fun p => p.1.taken
  wire : s.network.wire.Perm (letters.flatMap (onWire C addr node))
  calls : s.calls.Perm (letters.flatMap (reported name node))
  posted : ∀ p ∈ letters, Posted C addr name node p.1
  stands : ∀ p ∈ letters, Stands name s.network.node p
  distinct : (letters.map fun p => (p.1.taken.sender, p.1.taken.msgId)).Nodup
  counted : ∀ p ∈ letters, p.1.taken.msgId < (s.network.node p.1.taken.sender).msgIdCounter
  buffers : ∀ j bufKey, (s.network.node j).fragBufs.get? bufKey ≠ none →
    ∃ p ∈ letters, p.2.flying = true ∧ p.1.taken.receiver = j ∧ p.1.bufKey name = bufKey
  entries : ∀ i m, (s.network.node i).inFlight.get? m ≠ none →
    ∃ p ∈ letters, p.1.taken.sender = i ∧ p.1.taken.msgId = m
  room : ∀ j, (letters.filter fun p => p.2.flying = true ∧ p.1.taken.receiver = j).length ≤
    maxReassemblyBufs

end Phases

section Lists

theorem perm_flatMap_replace {α β : Type*} {f : α → List β} {a b : α} {x y : List β}
    (h : (f a ++ x).Perm (f b ++ y)) (before after : List α) :
    ((before ++ a :: after).flatMap f ++ x).Perm ((before ++ b :: after).flatMap f ++ y) := by
  have hsplit : ∀ c z, ((before ++ c :: after).flatMap f ++ z).Perm
      ((before ++ after).flatMap f ++ (f c ++ z)) := by
    intro c z
    rw [← List.append_assoc]
    refine List.Perm.append_right z ?_
    simp only [List.flatMap_append, List.flatMap_cons, List.append_assoc]
    exact List.Perm.append_left _ List.perm_append_comm
  exact (hsplit a x).trans ((h.append_left _).trans (hsplit b y).symm)

end Lists

section Moves

variable {C : Suite} {N : Type*} [DecidableEq N] {addr : N → Addr} {name : N → String}
variable {node : N → MeshTransport} {s : Conversation N} {front back : List (Letter N × Phase)}
variable {ℓ : Letter N} {phase phase' : Phase}

theorem get?_of_kept_empty {t : MeshTransport} {bufKey : String × ℕ} {chunks : List Bytes}
    (h : Buffered t bufKey chunks ∅) : t.fragBufs.get? bufKey = none := by
  cases h with
  | absent hget => exact hget
  | present kept buf hne _ _ => exact absurd rfl hne

theorem mem_replaced {α : Type*} {front back : List α} {a p : α} (hp : p ∈ front ++ a :: back) :
    p = a ∨ p ∈ front ++ back := by
  rcases List.mem_append.mp hp with hp | hp
  · exact Or.inr (List.mem_append_left _ hp)
  · rcases List.mem_cons.mp hp with rfl | hp
    · exact Or.inl rfl
    · exact Or.inr (List.mem_append_right _ hp)

theorem mem_kept {α : Type*} {front back : List α} {p : α} (a : α) (hp : p ∈ front ++ back) :
    p ∈ front ++ a :: back := by
  rcases List.mem_append.mp hp with hp | hp
  · exact List.mem_append_left _ hp
  · exact List.mem_append_right _ (List.mem_cons_of_mem a hp)

omit [DecidableEq N] in
/-- Two messages have different senders or different msg_ids. -/
theorem apart (hdistinct : ((front ++ (ℓ, phase) :: back).map
      fun p => (p.1.taken.sender, p.1.taken.msgId)).Nodup)
    {p : Letter N × Phase} (hp : p ∈ front ++ back) :
    ¬ (p.1.taken.sender = ℓ.taken.sender ∧ p.1.taken.msgId = ℓ.taken.msgId) := by
  rintro ⟨hsender, hid⟩
  have hperm : ((front ++ (ℓ, phase) :: back).map fun p => (p.1.taken.sender, p.1.taken.msgId)).Perm
      (((ℓ, phase) :: (front ++ back)).map fun p => (p.1.taken.sender, p.1.taken.msgId)) :=
    List.perm_middle.map _
  have hnodup := hperm.nodup_iff.mp hdistinct
  rw [List.map_cons, List.nodup_cons] at hnodup
  refine hnodup.1 (List.mem_map.mpr ⟨p, hp, ?_⟩)
  rw [hsender, hid]

/-- One message moves to its next phase by a step of one of its two nodes. -/
theorem Tracks.move (hname : Function.Injective name)
    (h : Tracks C addr name node s (front ++ (ℓ, phase) :: back)) (d : Datagram) (i : N)
    (out : Outcome) (hsame : SameHandshakes (s.network.node i) out.state)
    (hcbs : out.state.ackCbs = (s.network.node i).ackCbs)
    (hcounter : out.state.msgIdCounter = (s.network.node i).msgIdCounter)
    (hwire : (onWire C addr node (ℓ, phase) ++ sent (addr i) out.effects).Perm
      (d :: onWire C addr node (ℓ, phase')))
    (hcalls : (reported name node (ℓ, phase) ++ called i out.effects).Perm
      (reported name node (ℓ, phase')))
    (hstands : Stands name (Function.update s.network.node i out.state) (ℓ, phase'))
    (hbuffers : ∀ bufKey, ¬ (ℓ.taken.receiver = i ∧ ℓ.bufKey name = bufKey) →
      out.state.fragBufs.get? bufKey = (s.network.node i).fragBufs.get? bufKey)
    (hentries : ∀ m, ¬ (ℓ.taken.sender = i ∧ ℓ.taken.msgId = m) →
      out.state.inFlight.get? m = (s.network.node i).inFlight.get? m)
    (hflying : phase'.flying = true → phase.flying = true)
    (hd : d ∈ onWire C addr node (ℓ, phase)) :
    Tracks C addr name node (act addr s (s.network.wire.erase d) i out)
      (front ++ (ℓ, phase') :: back) := by
  have hmaps : ∀ {β : Type _} (f : Letter N → β),
      (front ++ (ℓ, phase') :: back).map (fun p => f p.1) =
        (front ++ (ℓ, phase) :: back).map fun p => f p.1 := by
    intro β f
    simp only [List.map_append, List.map_cons]
  have hother : ∀ p ∈ front ++ back,
      Stands name (Function.update s.network.node i out.state) p := by
    intro p hp
    have hstood := h.stands p (mem_kept _ hp)
    have hapart := apart h.distinct hp
    refine ⟨hstood.missing, Buffered.of_get?_eq hstood.buffered ?_, ?_⟩
    · by_cases hi : p.1.taken.receiver = i
      · rw [hi, Function.update_self]
        refine hbuffers _ fun hown => hapart ?_
        simp only [Letter.bufKey, Prod.mk.injEq] at hown
        exact ⟨(hname hown.2.1).symm, hown.2.2.symm⟩
      · rw [Function.update_of_ne hi]
    · rw [← hstood.inFlight]
      by_cases hi : p.1.taken.sender = i
      · rw [hi, Function.update_self, hentries]
        rintro ⟨hsender, hid⟩
        exact hapart ⟨hi.trans hsender.symm, hid.symm⟩
      · rw [Function.update_of_ne hi]
  constructor
  · intro j
    by_cases hj : j = i
    · subst hj
      simp only [act, Function.update_self]
      exact (h.same j).trans hsame
    · simp only [act, Function.update_of_ne hj]
      exact h.same j
  · intro j
    by_cases hj : j = i
    · subst hj
      simp only [act, Function.update_self]
      exact hcbs.trans (h.ackCbs j)
    · simp only [act, Function.update_of_ne hj]
      exact h.ackCbs j
  · rw [hmaps Letter.taken]
    exact h.taken
  · have hmem : d ∈ s.network.wire := h.wire.mem_iff.mpr (List.mem_flatMap.mpr
      ⟨(ℓ, phase), List.mem_append_right _ List.mem_cons_self, hd⟩)
    have hmoved := perm_flatMap_replace (f := onWire C addr node) (y := [d])
      (hwire.trans (List.perm_append_singleton d _).symm) front back
    refine List.Perm.cons_inv (a := d) ?_
    exact ((List.perm_cons_erase hmem).symm.append_right _).trans ((h.wire.append_right _).trans
      (hmoved.trans (List.perm_append_singleton d _)))
  · rw [← List.append_nil (reported name node (ℓ, phase'))] at hcalls
    have hmoved := perm_flatMap_replace hcalls front back
    rw [List.append_nil] at hmoved
    exact (h.calls.append_right _).trans hmoved
  · intro p hp
    rcases mem_replaced hp with rfl | hp
    · exact h.posted (ℓ, phase) (List.mem_append_right _ List.mem_cons_self)
    · exact h.posted p (mem_kept _ hp)
  · intro p hp
    rcases mem_replaced hp with rfl | hp
    · exact hstands
    · exact hother p hp
  · rw [hmaps fun ℓ => (ℓ.taken.sender, ℓ.taken.msgId)]
    exact h.distinct
  · intro p hp
    have hold : p.1.taken.msgId < (s.network.node p.1.taken.sender).msgIdCounter := by
      rcases mem_replaced hp with rfl | hp
      · exact h.counted (ℓ, phase) (List.mem_append_right _ List.mem_cons_self)
      · exact h.counted p (mem_kept _ hp)
    by_cases hi : p.1.taken.sender = i
    · rw [hi] at hold ⊢
      simp only [act, Function.update_self]
      rw [hcounter]
      exact hold
    · simp only [act, Function.update_of_ne hi]
      exact hold
  · intro j bufKey hget
    by_cases hown : ℓ.taken.receiver = j ∧ ℓ.bufKey name = bufKey
    · refine ⟨(ℓ, phase'), List.mem_append_right _ List.mem_cons_self, ?_, hown⟩
      cases phase' with
      | outstanding missing => rfl
      | answered => rfl
      | settled =>
        obtain ⟨rfl, rfl⟩ := hown
        exact absurd (get?_of_kept_empty hstands.buffered) hget
    · have hold : (s.network.node j).fragBufs.get? bufKey ≠ none := by
        by_cases hj : j = i
        · subst hj
          simp only [act, Function.update_self] at hget
          rwa [hbuffers bufKey hown] at hget
        · simp only [act, Function.update_of_ne hj] at hget
          exact hget
      obtain ⟨p, hp, hflies, hreceiver, hkey⟩ := h.buffers j bufKey hold
      rcases mem_replaced hp with rfl | hp
      · exact absurd ⟨hreceiver, hkey⟩ hown
      · exact ⟨p, mem_kept _ hp, hflies, hreceiver, hkey⟩
  · intro j m hget
    by_cases hown : ℓ.taken.sender = j ∧ ℓ.taken.msgId = m
    · exact ⟨(ℓ, phase'), List.mem_append_right _ List.mem_cons_self, hown⟩
    · have hold : (s.network.node j).inFlight.get? m ≠ none := by
        by_cases hj : j = i
        · subst hj
          simp only [act, Function.update_self] at hget
          rwa [hentries m hown] at hget
        · simp only [act, Function.update_of_ne hj] at hget
          exact hget
      obtain ⟨p, hp, hsender, hid⟩ := h.entries j m hold
      rcases mem_replaced hp with rfl | hp
      · exact absurd ⟨hsender, hid⟩ hown
      · exact ⟨p, mem_kept _ hp, hsender, hid⟩
  · intro j
    refine le_trans ?_ (h.room j)
    simp only [List.filter_append, List.filter_cons, List.length_append]
    refine Nat.add_le_add_left ?_ _
    split
    · rename_i hnew
      rw [if_pos]
      · rfl
      · simp only [decide_eq_true_eq] at hnew ⊢
        exact ⟨hflying hnew.1, hnew.2⟩
    · split
      · exact Nat.le_succ _
      · exact le_rfl

end Moves

section Arrivals

variable {C : Suite} {N : Type*} [DecidableEq N] {addr : N → Addr} {name : N → String}
variable {node : N → MeshTransport} {s : Conversation N} {front back : List (Letter N × Phase)}
variable {ℓ : Letter N} {missing : Finset ℕ}

theorem ackCbs_storeFragment (env : Env) (t : MeshTransport) (session : SessionInfo)
    (peerId : String) (addr : Addr) (msgId fragIdx fragTotal : ℕ) (fragment : Bytes) :
    (storeFragment C env t session peerId addr msgId fragIdx fragTotal fragment).state.ackCbs =
      t.ackCbs := by
  unfold storeFragment deliverAssembled attempt
  dsimp only
  repeat' split
  all_goals rfl

theorem ackCbs_dispatch (env : Env) (t : MeshTransport) (data : Bytes) (addr : Addr) :
    (dispatch C env t data addr).state.ackCbs = t.ackCbs := by
  unfold dispatch
  cases hparse : parsePacket data with
  | error e => rfl
  | ok packet =>
    obtain ⟨ptype, sid, payload⟩ := packet
    dsimp only
    split
    · by_cases hmessage : ptype = .message
      · subst hmessage
        simp only [handle, handleMessage]
        repeat' split
        all_goals first
          | rfl
          | exact ackCbs_storeFragment env t _ _ addr _ _ _ _
      · by_cases hack : ptype = .ack
        · subst hack
          simp only [handle, handleAck]
          split <;> rfl
        · exact (Honest.sameTraffic_handle C env t ⟨ptype, sid, payload⟩ data addr hmessage
            hack).ackCbs
    · rfl

omit [DecidableEq N] in
theorem called_append (i : N) (effects effects' : List Effect) :
    called i (effects ++ effects') = called i effects ++ called i effects' := by
  simp only [called, List.filter_append, List.map_append]

omit [DecidableEq N] in
theorem called_sendRaw (i : N) (t : MeshTransport) (packet : Bytes) (dest : Addr) :
    called i (t.sendRaw packet dest) = [] := by
  unfold sendRaw
  split <;> rfl

omit [DecidableEq N] in
theorem called_callbacks (i : N) (cbs : List Callback) (notify : Callback → Effect)
    (h : ∀ cb packet dest, notify cb ≠ .sendto packet dest) :
    called i (cbs.map notify) = cbs.map fun cb => (i, notify cb) := by
  have hall : ∀ e ∈ cbs.map notify, (match e with
      | .sendto _ _ => false
      | _ => true) = true := by
    intro e he
    obtain ⟨cb, _, rfl⟩ := List.mem_map.mp he
    have hne := h cb
    cases hnotify : notify cb <;> simp_all
  rw [called, List.filter_eq_self.mpr hall, List.map_map]
  rfl

/-- There is room for the first fragment of a message that is in flight. -/
theorem Tracks.hasRoom {letters : List (Letter N × Phase)} (h : Tracks C addr name node s letters)
    {p : Letter N × Phase} (hp : p ∈ letters) (hflying : p.2.flying = true)
    (hnone : (s.network.node p.1.taken.receiver).fragBufs.get? (p.1.bufKey name) = none) :
    (s.network.node p.1.taken.receiver).fragBufs.size < maxReassemblyBufs := by
  let waiting := (letters.filter fun q => q.2.flying = true ∧
    q.1.taken.receiver = p.1.taken.receiver).map fun q => q.1.bufKey name
  have hmem : p.1.bufKey name ∈ waiting.toFinset :=
    List.mem_toFinset.mpr (List.mem_map.mpr ⟨p, List.mem_filter.mpr ⟨hp, by simp [hflying]⟩, rfl⟩)
  have hsub : (s.network.node p.1.taken.receiver).fragBufs.keys.toFinset ⊆
      waiting.toFinset.erase (p.1.bufKey name) := by
    intro bufKey hkey
    obtain ⟨buf, hbuf⟩ := (OrderedDict.mem_keys_iff _ _).mp (List.mem_toFinset.mp hkey)
    obtain ⟨q, hq, hflies, hreceiver, rfl⟩ := h.buffers p.1.taken.receiver bufKey (by simp [hbuf])
    refine Finset.mem_erase.mpr ⟨fun heq => ?_, List.mem_toFinset.mpr (List.mem_map.mpr
      ⟨q, List.mem_filter.mpr ⟨hq, by simp [hflies, hreceiver]⟩, rfl⟩)⟩
    rw [heq, hnone] at hbuf
    contradiction
  have hcard := Finset.card_le_card hsub
  have herase := Finset.card_erase_lt_of_mem hmem
  have hlength : waiting.toFinset.card ≤ waiting.length := waiting.toFinset_card_le
  have hroom := h.room p.1.taken.receiver
  rw [OrderedDict.size_eq_card_keys]
  simp only [waiting, List.length_map] at hlength herase hcard
  omega

theorem insert_kept {total i : ℕ} (hi : i ∈ missing) (hrange : missing ⊆ Finset.range total) :
    insert i (Finset.range total \ missing) = Finset.range total \ missing.erase i :=
  (Finset.sdiff_erase (hrange hi)).symm

theorem complete_iff {total i : ℕ} (hrange : missing ⊆ Finset.range total) :
    Finset.range total \ missing.erase i = Finset.range total ↔ missing.erase i = ∅ := by
  constructor
  · intro heq
    have hdisjoint := Finset.sdiff_eq_self_iff_disjoint.mp heq
    have hsub := (Finset.erase_subset i missing).trans hrange
    exact Finset.disjoint_self_iff_empty _ |>.mp (hdisjoint.mono_left hsub)
  · intro hnone
    rw [hnone, Finset.sdiff_empty]

theorem kept_without {total i : ℕ} (hi : i ∈ missing) (hrange : missing ⊆ Finset.range total) :
    (Phase.without missing i).kept total =
      collect (Finset.range total) (Finset.range total \ missing) i := by
  rw [collect, insert_kept hi hrange, Phase.without]
  by_cases hlast : missing.erase i = ∅
  · rw [if_pos hlast, if_pos ((complete_iff hrange).mpr hlast)]
    rfl
  · rw [if_neg hlast, if_neg fun heq => hlast ((complete_iff hrange).mp heq)]
    rfl

/-- What the arrival of a missing packet does at its receiver. -/
theorem Tracks.receives (haead : C.AeadCorrect)
    (h : Tracks C addr name node s (front ++ (ℓ, .outstanding missing) :: back)) (env : Env) {i : ℕ}
    (hi : i ∈ missing) :
    let t := s.network.node ℓ.taken.receiver
    let out := dispatch C env t (ℓ.piece C addr i).data (ℓ.piece C addr i).source
    SameHandshakes t out.state ∧ out.state.inFlight = t.inFlight ∧
    (∀ bufKey, ℓ.bufKey name ≠ bufKey →
      out.state.fragBufs.get? bufKey = t.fragBufs.get? bufKey) ∧
    Buffered out.state (ℓ.bufKey name) ℓ.cut.chunks
      ((Phase.without missing i).kept ℓ.cut.total) ∧
    out.effects = if missing.erase i = ∅ then delivery C (node ℓ.taken.receiver)
        (addr ℓ.taken.sender) (name ℓ.taken.sender) ℓ.cut.key ℓ.taken.msgId ℓ.taken.message
      else [] := by
  have hmem : (ℓ, Phase.outstanding missing) ∈ front ++ (ℓ, .outstanding missing) :: back :=
    List.mem_append_right _ List.mem_cons_self
  have hposted : Posted C addr name node ℓ := h.posted _ hmem
  obtain ⟨session, hreception⟩ := hposted.reception
  have hstands := h.stands _ hmem
  have hrange : missing ⊆ Finset.range ℓ.cut.total := (hstands.missing missing rfl).2
  have hlt : i < ℓ.cut.chunks.length := Finset.mem_range.mp (hrange hi)
  have hchunk : ℓ.cut.chunks[i]? = some (ℓ.cut.chunks.getD i []) := by
    rw [List.getD_eq_getElem?_getD, List.getElem?_eq_getElem hlt, Option.getD_some]
  have hsame := h.same ℓ.taken.receiver
  have hkey : ℓ.bufKey name = (name ℓ.taken.sender, ℓ.cut.msgId) := by
    rw [Letter.bufKey, hposted.msgId]
  have hbuf : Buffered (s.network.node ℓ.taken.receiver) (name ℓ.taken.sender, ℓ.cut.msgId)
      ℓ.cut.chunks (Finset.range ℓ.cut.total \ missing) := by
    rw [← hkey]
    exact hstands.buffered
  have hopen := openBuffer_ne_none hbuf fun hempty => by
    rw [hempty, ← hkey] at hbuf
    exact h.hasRoom hmem rfl (get?_of_kept_empty hbuf)
  obtain ⟨_, hbuf', hcaused⟩ := copy_step C haead hreception hsame Finset.sdiff_subset hbuf hopen
    env i _ hchunk
  have hparse := Sending.parse_packet C hreception.genuine.sendable hchunk
  have habout := about_packet C hreception i
    ⟨env, (ℓ.piece C addr i).data, addr ℓ.taken.sender⟩ ⟨rfl, _, hchunk, rfl⟩
  rw [← about_of_same hsame, ← hkey] at habout
  refine ⟨sameHandshakes_message C env _ _ _ _ _ hparse, ?_, ?_, ?_, ?_⟩
  · rw [inFlight_dispatch]
    simp only [acknowledges, Letter.piece, hparse]
  · intro bufKey hne
    refine fragBufs_dispatch C env _ _ _ bufKey fun heq => hne ?_
    exact Option.some.inj (habout.symm.trans heq)
  · rw [hkey, kept_without hi hrange]
    exact hbuf'
  · rw [insert_kept hi hrange, hposted.msgId] at hcaused
    exact hcaused.trans (if_congr (complete_iff hrange) rfl rfl)

omit [DecidableEq N] in
/-- The acknowledgement goes on the wire and the message to the callbacks. -/
theorem sent_delivery (addr : N → Addr) (hopened : ∀ i, (node i).udpTransport = true)
    (ℓ : Letter N) :
    let effects := delivery C (node ℓ.taken.receiver) (addr ℓ.taken.sender) (name ℓ.taken.sender)
      ℓ.cut.key ℓ.taken.msgId ℓ.taken.message
    sent (addr ℓ.taken.receiver) effects = [ℓ.ack C addr node] ∧
    called ℓ.taken.receiver effects = messageCalls name node ℓ.taken := by
  dsimp only
  constructor
  · rw [delivery, sent_append, sent_callbacks _ _ _ fun _ _ _ => by simp, List.append_nil, sendRaw,
      if_pos (hopened _)]
    rfl
  · rw [delivery, called_append, called_sendRaw, called_callbacks _ _ _ fun _ _ _ => by simp]
    rfl

/-- A packet arrives: it is kept, or it is the last one, and the message is handed over. -/
theorem Tracks.piece (haead : C.AeadCorrect) (hname : Function.Injective name)
    (hopened : ∀ i, (node i).udpTransport = true)
    (h : Tracks C addr name node s (front ++ (ℓ, .outstanding missing) :: back)) (env : Env) {i : ℕ}
    (hi : i ∈ missing) :
    Tracks C addr name node
      (act addr s (s.network.wire.erase (ℓ.piece C addr i)) ℓ.taken.receiver
        (dispatch C env (s.network.node ℓ.taken.receiver) (ℓ.piece C addr i).data
          (ℓ.piece C addr i).source)) (front ++ (ℓ, Phase.without missing i) :: back) := by
  have hmem : (ℓ, Phase.outstanding missing) ∈ front ++ (ℓ, .outstanding missing) :: back :=
    List.mem_append_right _ List.mem_cons_self
  have hstands := h.stands _ hmem
  have hrange : missing ⊆ Finset.range ℓ.cut.total := (hstands.missing missing rfl).2
  obtain ⟨hsame, hflight, hothers, hbuffered, heffects⟩ := h.receives haead env hi
  have hcbs := ackCbs_dispatch (C := C) env (s.network.node ℓ.taken.receiver)
    (ℓ.piece C addr i).data (ℓ.piece C addr i).source
  have hcounter := counter_dispatch C env (s.network.node ℓ.taken.receiver)
    (ℓ.piece C addr i).data (ℓ.piece C addr i).source
  generalize dispatch C env (s.network.node ℓ.taken.receiver) (ℓ.piece C addr i).data
    (ℓ.piece C addr i).source = out at *
  have hmissing : missing.toList.Perm (i :: (missing.erase i).toList) := by
    have hinsert := Finset.toList_insert (Finset.notMem_erase i missing)
    rwa [Finset.insert_erase hi] at hinsert
  refine h.move hname (ℓ.piece C addr i) ℓ.taken.receiver out hsame hcbs hcounter ?_ ?_ ?_ ?_ ?_
    (fun _ => rfl) (List.mem_map.mpr ⟨i, Finset.mem_toList.mpr hi, rfl⟩)
  · by_cases hlast : missing.erase i = ∅
    · rw [if_pos hlast] at heffects
      rw [heffects, (sent_delivery addr hopened ℓ).1, Phase.without, if_pos hlast]
      rw [hlast, Finset.toList_empty] at hmissing
      exact (hmissing.map _).append_right _
    · rw [if_neg hlast] at heffects
      rw [heffects, Phase.without, if_neg hlast]
      simp only [sent, List.filterMap_nil, List.append_nil]
      exact hmissing.map (ℓ.piece C addr)
  · by_cases hlast : missing.erase i = ∅
    · rw [if_pos hlast] at heffects
      rw [heffects, (sent_delivery addr hopened ℓ).2, Phase.without, if_pos hlast]
      exact List.Perm.refl _
    · rw [if_neg hlast] at heffects
      rw [heffects, Phase.without, if_neg hlast]
      exact List.Perm.refl _
  · refine ⟨?_, ?_, ?_⟩
    · intro rest hrest
      simp only [Phase.without] at hrest
      split at hrest
      · contradiction
      · rename_i hmore
        cases hrest
        exact ⟨Finset.nonempty_iff_ne_empty.mpr hmore, (Finset.erase_subset i missing).trans hrange⟩
    · rw [Function.update_self]
      exact hbuffered
    · have hflying : (Phase.without missing i).flying = true := by
        rw [Phase.without]
        split <;> rfl
      have hflew : ((s.network.node ℓ.taken.sender).inFlight.get? ℓ.taken.msgId).isSome = true :=
        hstands.inFlight
      rw [hflying, ← hflew]
      by_cases hself : ℓ.taken.sender = ℓ.taken.receiver
      · rw [hself, Function.update_self, hflight]
      · rw [Function.update_of_ne hself]
  · intro bufKey hne
    exact hothers bufKey fun heq => hne ⟨rfl, heq⟩
  · intro m _
    rw [hflight]

/-- The acknowledgement arrives, and the message is settled. -/
theorem Tracks.ack (hname : Function.Injective name)
    (h : Tracks C addr name node s (front ++ (ℓ, .answered) :: back)) (env : Env) :
    Tracks C addr name node
      (act addr s (s.network.wire.erase (ℓ.ack C addr node)) ℓ.taken.sender
        (dispatch C env (s.network.node ℓ.taken.sender) (ℓ.ack C addr node).data
          (ℓ.ack C addr node).source)) (front ++ (ℓ, .settled) :: back) := by
  have hmem : (ℓ, Phase.answered) ∈ front ++ (ℓ, .answered) :: back :=
    List.mem_append_right _ List.mem_cons_self
  have hposted : Posted C addr name node ℓ := h.posted _ hmem
  obtain ⟨session, hholds, hkey⟩ := hposted.back
  have hstands := h.stands _ hmem
  have hsame := h.same ℓ.taken.sender
  obtain ⟨session', hholds', hkey', _⟩ := holds_of_same hholds hsame
  have hid : ℓ.taken.msgId < 256 ^ 4 := by
    obtain ⟨_, hreception⟩ := hposted.reception
    rw [← hposted.msgId]
    have hpos := List.length_pos_iff.mpr hreception.genuine.nonempty
    exact (hreception.genuine.sendable 0 _ (List.getElem?_eq_getElem hpos)).1
  have hack := Custody.acknowledges_of_ackedBy (Custody.ackedBy_ackPacket C hholds'
    (node ℓ.taken.receiver).senderId ℓ.taken.msgId hid)
  rw [hkey', hkey] at hack
  have hdispatch := Outcomes.dispatch_acknowledged C env _ _ _ _ hack
  have hcbs : (s.network.node ℓ.taken.sender).ackCbs = (node ℓ.taken.sender).ackCbs :=
    h.ackCbs ℓ.taken.sender
  show Tracks C addr name node (act addr s _ _ (dispatch C env _
    (ackPacket C (node ℓ.taken.receiver).senderId ℓ.cut.key ℓ.taken.msgId)
    (addr ℓ.taken.receiver))) _
  rw [hdispatch]
  refine h.move hname (ℓ.ack C addr node) ℓ.taken.sender _ ?_ rfl rfl ?_ ?_ ?_ ?_ ?_ (fun _ => rfl)
    (List.mem_singleton_self _)
  · exact sameHandshakes_setInFlight _ _
  · rw [sent_callbacks _ _ _ fun _ _ _ => by simp]
    exact List.Perm.refl _
  · rw [called_callbacks _ _ _ fun _ _ _ => by simp, hcbs]
    exact List.Perm.refl _
  · refine ⟨fun rest hrest => by contradiction, ?_, ?_⟩
    · have hbuffered : Buffered (s.network.node ℓ.taken.receiver) (ℓ.bufKey name) ℓ.cut.chunks ∅ :=
        hstands.buffered
      refine Buffered.of_get?_eq hbuffered ?_
      by_cases hself : ℓ.taken.receiver = ℓ.taken.sender
      · simp only [hself, Function.update_self]
      · simp only [Function.update_of_ne hself]
    · simp only [Function.update_self, OrderedDict.get?_erase, if_true]
      rfl
  · intro bufKey _
    rfl
  · intro m hm
    rw [OrderedDict.get?_erase_of_ne]
    exact fun heq => hm ⟨rfl, heq⟩

/-- Every arrival moves one message on. -/
theorem Tracks.delivered (haead : C.AeadCorrect) (hname : Function.Injective name)
    (haddr : Function.Injective addr) (hopened : ∀ i, (node i).udpTransport = true)
    {letters : List (Letter N × Phase)} (h : Tracks C addr name node s letters) (l : Delivery N)
    (harrives : Arrives addr (s.network, l)) : ∃ letters', Tracks C addr name node
      (act addr s (s.network.wire.erase l.datagram) l.receiver
        (dispatch C l.env (s.network.node l.receiver) l.datagram.data l.datagram.source))
      letters' := by
  obtain ⟨p, hp, hd⟩ := List.mem_flatMap.mp (h.wire.mem_iff.mp harrives.1)
  have hdest := harrives.2
  obtain ⟨front, back, rfl⟩ := List.append_of_mem hp
  obtain ⟨ℓ, phase⟩ := p
  cases phase with
  | outstanding missing =>
    obtain ⟨i, hi, heq⟩ := List.mem_map.mp hd
    rw [← heq] at hdest ⊢
    rw [← haddr hdest]
    exact ⟨_, h.piece haead hname hopened l.env (Finset.mem_toList.mp hi)⟩
  | answered =>
    rw [List.mem_singleton.mp hd] at hdest ⊢
    rw [← haddr hdest]
    exact ⟨_, h.ack hname l.env⟩
  | settled => exact absurd hd List.not_mem_nil

end Arrivals

end Mesim.Conversations
