import Mesim.Fragments
import Mesim.Honest

/-!
Two honest nodes and the network between them.
Each node knows the other's genuine bundle and address. The network loses
nothing and delivers in any order; packets go to the node whose address they
carry. The last section follows a handshake packet by packet: an exchange that
one node starts, and two exchanges that cross.
-/
namespace Mesim.Pair

open Octets TextCodec Crypto Identity Packet Transport Operations Dispatch Nodes Fragments Honest
open MeshTransport Outcome

inductive Side where
  | a
  | b
  deriving DecidableEq

def Side.other : Side → Side
  | .a => .b
  | .b => .a

@[simp] theorem other_other (x : Side) : x.other.other = x := by
  cases x <;> rfl

theorem other_ne (x : Side) : x.other ≠ x := by
  cases x <;> decide

/-- The two devices and the addresses they use. -/
structure Parties where
  identity : Side → DeviceIdentity
  addr : Side → Addr

/-- The nodes, and the packets on their way, each with its sender. -/
structure System where
  node : Side → Node
  wire : List (Side × Bytes)

inductive Op where
  | connect
  | resume (call : ℕ)
  | timeout (call : ℕ)
  | send (peerId : String) (message : Bytes)
  | retry

inductive Label where
  | act (x : Side) (env : Env) (op : Op)
  | deliver (sender : Side) (env : Env) (packet : Bytes)

variable (C : Suite) (P : Parties)

def Parties.bundle (x : Side) : PublicBundle := getPublicBundle C (P.identity x)

/-- A node only ever connects to the other one's genuine bundle and address. -/
def event (x : Side) : Op → Event
  | .connect => .connect (P.addr x.other) (P.bundle C x.other)
  | .resume i => .resume i
  | .timeout i => .timeout i
  | .send peerId message => .send peerId message
  | .retry => .retry

/-- The packets among the effects that are addressed to the other node. -/
def posted (x : Side) (effects : List Effect) : List (Side × Bytes) :=
  effects.filterMap fun e => match e with
    | .sendto packet addr => if addr = P.addr x.other then some (x, packet) else none
    | _ => none

def advance (s : System) (x : Side) (wire : List (Side × Bytes)) (out : Node × List Effect) :
    System :=
  ⟨Function.update s.node x out.1, wire ++ posted P x out.2⟩

def step (s : System) : Label → System
  | .act x env op => advance P s x s.wire ((s.node x).step C env (event C P x op))
  | .deliver sender env packet =>
    if (sender, packet) ∈ s.wire then
      advance P s sender.other (s.wire.erase (sender, packet))
        ((s.node sender.other).step C env (.datagram packet (P.addr sender)))
    else s

/-- Both nodes have just started and nothing is on its way. -/
def Initial (s : System) : Prop := (∀ x, Started (P.identity x) (s.node x)) ∧ s.wire = []

/-- The packet is on its way. -/
def System.carries (s : System) (sender : Side) (packet : Bytes) : Bool :=
  decide ((sender, packet) ∈ s.wire)

section Wire

theorem carries_iff (s : System) (sender : Side) (packet : Bytes) :
    s.carries sender packet = true ↔ (sender, packet) ∈ s.wire :=
  decide_eq_true_iff

theorem mem_posted (x y : Side) (packet : Bytes) (effects : List Effect) :
    (y, packet) ∈ posted P x effects ↔ y = x ∧ .sendto packet (P.addr x.other) ∈ effects := by
  unfold posted
  rw [List.mem_filterMap]
  constructor
  · rintro ⟨e, he, heq⟩
    cases e with
    | sendto pkt addr =>
      dsimp only at heq
      split at heq
      · rename_i haddr
        cases heq
        exact ⟨rfl, haddr ▸ he⟩
      · contradiction
    | message _ _ _ | connected _ _ | sendFailed _ _ _ | ackReceived _ _ | rawPacket _ _ _ _ =>
      contradiction
  · rintro ⟨rfl, he⟩
    exact ⟨_, he, by simp⟩

end Wire

section Exchange

/-- A node of this network that has no session and no connected callback yet, and has
only handled handshakes since it was in state `t₀`. -/
structure Owned (x : Side) (t₀ : MeshTransport) (n : Node) : Prop where
  identity : n.transport.identity = P.identity x
  udpTransport : n.transport.udpTransport = true
  connectedCbs : n.transport.connectedCbs = []
  sessions : n.transport.sessions = .empty
  traffic : SameTraffic t₀ n.transport

/-- A call of connect() to the other node is under way and holds the slot. -/
structure Midway (x : Side) (t₀ : MeshTransport) (n : Node) (i ref : ℕ) (h : PendingHandshake)
    (phase : ConnectPhase) : Prop where
  owned : Owned P x t₀ n
  pending : n.transport.pending.get? (P.addr x.other) = some ref
  object : n.transport.handshakes[ref]? = some h
  call : n.calls[i]? = some ⟨P.addr x.other, P.bundle C x.other, ref, phase⟩

/-- The KEY_INIT of node `x` carries this key to the other node. -/
structure Offer (x : Side) (env : Env) (result : KEMEncapResult) (key : SessionKey) : Prop where
  encap : C.kemEncapsulate env.seed (P.bundle C x.other).encryptPub (P.bundle C x.other).kemPub
    (P.identity x).encryptKeypair.privateKey = .ok (result, key)
  decap : C.kemDecapsulate result.ciphertext (P.bundle C x).encryptPub
    (P.identity x.other).encryptKeypair.privateKey (P.identity x.other).kemKeypair.secretKey =
      .ok key

theorem exists_offer (x : Side) (env : Env)
    (hdh : C.DhCorrect (P.identity x).encryptKeypair (P.identity x.other).encryptKeypair)
    (hkem : C.KemCorrect (P.identity x.other).kemKeypair) :
    ∃ result key, Offer C P x env result key := by
  obtain ⟨result, key, hencap, hdecap⟩ := C.decapsulate_encapsulate env.seed _ _ _ hdh hkem
  exact ⟨result, key, hencap, hdecap⟩

def keyInitPacket (sid : Fixed 32) (result : KEMEncapResult) : Bytes :=
  frame .keyInit sid result.ciphertext.toList zeroMac

def keyAckPacket (sid : Fixed 32) (env : Env) (key : SessionKey) : Bytes :=
  frame .keyAck sid ((C.encryptMessage (env.nonce 0) (keyAckMagic ++ env.filler.toList) key []).1 ++
    (C.encryptMessage (env.nonce 0) (keyAckMagic ++ env.filler.toList) key []).2) zeroMac

variable {C P} {x : Side} {t₀ : MeshTransport} {n : Node} {i ref : ℕ} {h : PendingHandshake}
variable {phase : ConnectPhase} {wire wire' : Bytes} {key : SessionKey} {result : KEMEncapResult}

theorem Owned.setHandshakes (hn : Owned P x t₀ n) (pending : OrderedDict Addr ℕ)
    (handshakes : List PendingHandshake) (calls : List ConnectCall) :
    Owned P x t₀ ⟨{ n.transport with pending := pending, handshakes := handshakes }, calls⟩ :=
  ⟨hn.identity, hn.udpTransport, hn.connectedCbs, hn.sessions, hn.traffic.setHandshakes _ _ _ _⟩

theorem sendRaw_owned (hn : Owned P x t₀ n) (packet : Bytes) (addr : Addr) :
    n.transport.sendRaw packet addr = [.sendto packet addr] := by
  rw [sendRaw, if_pos hn.udpTransport]

/-- connect() sends the node's own bundle and takes the slot. -/
theorem owned_connect (hn : Owned P x t₀ n) (hown : HonestIdentity C (P.identity x))
    (hpeer : HonestIdentity C (P.identity x.other)) (env : Env)
    (hwire : packBundle (P.bundle C x) = .ok wire) :
    ∃ n', n.step C env (event C P x .connect) =
        (n', [.sendto (frame .handshake t₀.senderId wire zeroMac) (P.addr x.other)]) ∧
      Midway C P x t₀ n' n.calls.length n.transport.handshakes.length
        ⟨P.addr x.other, some (P.bundle C x.other), none, false, false⟩ .awaitResp := by
  obtain ⟨own, hpack, hstep⟩ := step_connect C env n (P.addr x.other) (P.bundle C x.other)
    (by rw [hn.identity]; exact hown) (verify_getPublicBundle C _ hpeer.sign)
  rw [hn.identity] at hpack
  have heq : own = wire := Except.ok.inj (hpack.symm.trans hwire)
  rw [heq, sendRaw_owned hn, hn.traffic.senderId] at hstep
  exact ⟨_, hstep, hn.setHandshakes _ _ _,
    OrderedDict.get?_set_self _ _ _, List.getElem?_concat_length, List.getElem?_concat_length⟩

/-- A HANDSHAKE that reaches a node with no slot opens one. -/
theorem owned_handshake (sid' : Fixed 32) (hn : Owned P x t₀ n)
    (env : Env) (hwire : packBundle (P.bundle C x) = .ok wire)
    (hpeer : announced C wire' = some (P.bundle C x.other))
    (hvalid : ∀ a ref, n.transport.pending.get? a = some ref →
      ref < n.transport.handshakes.length) :
    ∃ n', n.step C env (.datagram (frame .handshake sid' wire' zeroMac) (P.addr x.other)) =
        (n', [.sendto (frame .handshakeResp t₀.senderId wire zeroMac) (P.addr x.other)]) ∧
      Owned P x t₀ n' ∧ n'.calls = n.calls ∧
      n'.transport = n.transport.notePeerBundle (P.addr x.other) (P.bundle C x.other) ∧
      (n'.transport.slot (P.addr x.other)).bind PendingHandshake.peerBundle =
        some (P.bundle C x.other) := by
  have hstep := step_handshake C env n (P.addr x.other) sid' wire' wire (P.bundle C x.other) hpeer
    (by rw [hn.identity]; exact hwire)
  rw [sendRaw_owned hn, hn.traffic.senderId] at hstep
  refine ⟨_, hstep, ?_, rfl, rfl, peerBundle_notePeerBundle _ _ _ hvalid⟩
  have hsame : Owned P x t₀ ⟨n.transport.notePeerBundle (P.addr x.other) (P.bundle C x.other),
      n.calls⟩ := by
    unfold notePeerBundle
    split <;> exact hn.setHandshakes _ _ _
  exact hsame

/-- A HANDSHAKE that meets the node's own call sets the bundle in its slot. -/
theorem midway_handshake (sid' : Fixed 32) (hn : Midway C P x t₀ n i ref h phase)
    (env : Env) (hwire : packBundle (P.bundle C x) = .ok wire)
    (hpeer : announced C wire' = some (P.bundle C x.other)) :
    ∃ n', n.step C env (.datagram (frame .handshake sid' wire' zeroMac) (P.addr x.other)) =
        (n', [.sendto (frame .handshakeResp t₀.senderId wire zeroMac) (P.addr x.other)]) ∧
      Midway C P x t₀ n' i ref { h with peerBundle := some (P.bundle C x.other) } phase := by
  have hstep := step_handshake C env n (P.addr x.other) sid' wire' wire (P.bundle C x.other) hpeer
    (by rw [hn.owned.identity]; exact hwire)
  rw [sendRaw_owned hn.owned, hn.owned.traffic.senderId] at hstep
  simp only [notePeerBundle, hn.pending] at hstep
  exact ⟨_, hstep, hn.owned.setHandshakes _ _ _, hn.pending,
    getElem?_modifyHandshake _ _ _ _ hn.object, hn.call⟩

theorem midway_handshakeResp (sid' : Fixed 32) (hn : Midway C P x t₀ n i ref h phase) (env : Env)
    (hpeer : announced C wire' = some (P.bundle C x.other)) :
    ∃ n', n.step C env (.datagram (frame .handshakeResp sid' wire' zeroMac) (P.addr x.other)) =
        (n', []) ∧
      Midway C P x t₀ n' i ref
        { h with peerBundle := some (P.bundle C x.other), respEvent := true } phase := by
  have hstep := step_handshakeResp C env n (P.addr x.other) sid' wire' _ ref hpeer hn.pending
  exact ⟨_, hstep, hn.owned.setHandshakes _ _ _, hn.pending,
    getElem?_modifyHandshake _ _ _ _ hn.object, hn.call⟩

theorem midway_resume (hn : Midway C P x t₀ n i ref h .awaitResp) (env : Env)
    (hresp : h.respEvent = true) (hoffer : Offer C P x env result key) :
    ∃ n', n.step C env (event C P x (.resume i)) =
        (n', [.sendto (keyInitPacket t₀.senderId result) (P.addr x.other)]) ∧
      Midway C P x t₀ n' i ref { h with ourSessionKey := some key } (.awaitAck key) := by
  have hstep := step_encapsulate C env n i _ h result key hn.call rfl hn.object hresp
    (by rw [hn.owned.identity]; exact hoffer.encap)
  rw [sendRaw_owned hn.owned, hn.owned.traffic.senderId] at hstep
  refine ⟨_, hstep, hn.owned.setHandshakes _ _ _, hn.pending,
    getElem?_modifyHandshake _ _ _ _ hn.object, ?_⟩
  show (n.calls.modify i _)[i]? = _
  rw [List.getElem?_modify, hn.call]
  simp

/-- The other node's KEY_INIT registers its key and frees the slot. -/
theorem owned_keyInit (sid' : Fixed 32) (hn : Owned P x t₀ n)
    (hslot : (n.transport.slot (P.addr x.other)).bind PendingHandshake.peerBundle =
      some (P.bundle C x.other)) (env env' : Env)
    (hoffer : Offer C P x.other env' result key) :
    ∃ n', n.step C env (.datagram (keyInitPacket sid' result) (P.addr x.other)) =
        (n', [.sendto (keyAckPacket C t₀.senderId env key) (P.addr x.other)]) ∧
      n'.transport.pending.get? (P.addr x.other) = none ∧
      Established n'.transport (P.addr x.other) key (P.bundle C x.other) ∧
      SameTraffic t₀ n'.transport := by
  have hdecap := hoffer.decap
  rw [other_other] at hdecap
  have hstep := step_keyInit C env n (P.addr x.other) sid' result.ciphertext _ key hslot
    (by rw [hn.identity]; exact hdecap)
  rw [sendRaw_owned hn, hn.traffic.senderId, hn.connectedCbs] at hstep
  obtain ⟨hbyAddr, hsession⟩ := established_installSession n.transport env.time (P.addr x.other) key
    (P.bundle C x.other)
  exact ⟨_, hstep, OrderedDict.get?_erase_self _ _, ⟨hbyAddr, hsession⟩,
    hn.traffic.setHandshakes _ _ _ _⟩

theorem midway_slot (hn : Midway C P x t₀ n i ref h phase) :
    n.transport.slot (P.addr x.other) = some h := by
  rw [MeshTransport.slot, hn.pending, Option.bind_some, hn.object]

/-- The acknowledgement of the node's own KEY_INIT registers its key. -/
theorem midway_keyAck (sid' : Fixed 32) (haead : C.AeadCorrect) (hn : Midway C P x t₀ n i ref h phase)
    (hkey : h.ourSessionKey = some key) (hbundle : h.peerBundle = some (P.bundle C x.other))
    (env env' : Env) :
    ∃ n', n.step C env (.datagram (keyAckPacket C sid' env' key) (P.addr x.other)) = (n', []) ∧
      Established n'.transport (P.addr x.other) key (P.bundle C x.other) ∧
      SameTraffic t₀ n'.transport := by
  have hstep := step_keyAck C haead env n (P.addr x.other) sid' (env'.nonce 0) env'.filler key _ ref
    h hn.pending hn.object hkey hbundle
  rw [hn.owned.connectedCbs] at hstep
  obtain ⟨hbyAddr, hsession⟩ := established_installSession n.transport env.time (P.addr x.other) key
    (P.bundle C x.other)
  exact ⟨_, hstep, ⟨hbyAddr, hsession⟩, hn.owned.traffic.setHandshakes _ _ _ _⟩

theorem keyAck_dropped (sid' : Fixed 32) (key : SessionKey) (env env' : Env)
    (hnone : n.transport.pending.get? (P.addr x.other) = none) :
    n.step C env (.datagram (keyAckPacket C sid' env' key) (P.addr x.other)) = (n, []) :=
  step_keyAck_dropped C env n _ sid' _
    (Nat.lt_of_le_of_lt (Nat.le_of_eq (keyAck_length C key _ _)) (by decide)) hnone

end Exchange

section Runs

def pair (na nb : Node) (wire : List (Side × Bytes)) : System :=
  ⟨fun x => match x with
    | .a => na
    | .b => nb, wire⟩

variable {C P} {na nb n' : Node} {wire : List (Side × Bytes)} {env : Env} {effects : List Effect}

theorem posted_sendto (x : Side) (packet : Bytes) :
    posted P x [.sendto packet (P.addr x.other)] = [(x, packet)] := by
  simp [posted]

theorem posted_nil (x : Side) : posted P x [] = [] := rfl

theorem advance_a (wire' : List (Side × Bytes)) :
    advance P (pair na nb wire) .a wire' (n', effects) =
      pair n' nb (wire' ++ posted P .a effects) := by
  refine congrArg (System.mk · _) (funext fun x => ?_)
  cases x <;> rfl

theorem advance_b (wire' : List (Side × Bytes)) :
    advance P (pair na nb wire) .b wire' (n', effects) =
      pair na n' (wire' ++ posted P .b effects) := by
  refine congrArg (System.mk · _) (funext fun x => ?_)
  cases x <;> rfl

theorem act_a {op : Op} (h : na.step C env (event C P .a op) = (n', effects)) :
    step C P (pair na nb wire) (.act .a env op) =
      pair n' nb (wire ++ posted P .a effects) := by
  show advance P _ .a wire (na.step C env _) = _
  rw [h, advance_a]

theorem act_b {op : Op} (h : nb.step C env (event C P .b op) = (n', effects)) :
    step C P (pair na nb wire) (.act .b env op) =
      pair na n' (wire ++ posted P .b effects) := by
  show advance P _ .b wire (nb.step C env _) = _
  rw [h, advance_b]

theorem deliver_to_b {packet : Bytes}
    (h : nb.step C env (.datagram packet (P.addr .a)) = (n', effects)) :
    step C P (pair na nb ((.a, packet) :: wire)) (.deliver .a env packet) =
      pair na n' (wire ++ posted P .b effects) := by
  have hmem : (Side.a, packet) ∈ (pair na nb ((.a, packet) :: wire)).wire := List.mem_cons_self
  rw [step, if_pos hmem]
  show advance P _ .b (List.erase (_ :: wire) _) (nb.step C env _) = _
  rw [h, advance_b, List.erase_cons_head]

theorem deliver_to_a {packet : Bytes}
    (h : na.step C env (.datagram packet (P.addr .b)) = (n', effects)) :
    step C P (pair na nb ((.b, packet) :: wire)) (.deliver .b env packet) =
      pair n' nb (wire ++ posted P .a effects) := by
  have hmem : (Side.b, packet) ∈ (pair na nb ((.b, packet) :: wire)).wire := List.mem_cons_self
  rw [step, if_pos hmem]
  show advance P _ .a (List.erase (_ :: wire) _) (na.step C env _) = _
  rw [h, advance_a, List.erase_cons_head]

theorem owned_of_started {x : Side} {n : Node} (hn : Started (P.identity x) n)
    (hcbs : n.transport.connectedCbs = []) : Owned P x n.transport n :=
  ⟨hn.1.identity, hn.1.udpTransport, hcbs, hn.1.sessions,
    ⟨rfl, rfl, rfl, rfl, rfl, rfl, rfl, rfl, rfl, rfl⟩⟩

/-- Node `a` connects to an idle node `b`: step by step, until both hold a session
under the key that `a` has encapsulated. -/
theorem exchange_steps (haead : C.AeadCorrect) (hown : ∀ x, HonestIdentity C (P.identity x))
    (hna : Started (P.identity .a) na) (hnb : Started (P.identity .b) nb)
    (hcbs : na.transport.connectedCbs = [] ∧ nb.transport.connectedCbs = [])
    {result : KEMEncapResult} {key : SessionKey} (hoffer : Offer C P .a env result key)
    {wireA wireB : Bytes} (hwireA : packBundle (P.bundle C .a) = .ok wireA)
    (hwireB : packBundle (P.bundle C .b) = .ok wireB) :
    ∃ a₁ a₂ a₃ a₄ b₁ b₂,
      (Owned P .a na.transport a₁ ∧ Owned P .a na.transport a₃) ∧
      (Owned P .b nb.transport nb ∧ Owned P .b nb.transport b₁) ∧
      step C P (pair na nb []) (.act .a env .connect) =
        pair a₁ nb [(.a, frame .handshake na.transport.senderId wireA zeroMac)] ∧
      step C P (pair a₁ nb [(.a, frame .handshake na.transport.senderId wireA zeroMac)])
          (.deliver .a env (frame .handshake na.transport.senderId wireA zeroMac)) =
        pair a₁ b₁ [(.b, frame .handshakeResp nb.transport.senderId wireB zeroMac)] ∧
      step C P (pair a₁ b₁ [(.b, frame .handshakeResp nb.transport.senderId wireB zeroMac)])
          (.deliver .b env (frame .handshakeResp nb.transport.senderId wireB zeroMac)) = pair a₂ b₁ [] ∧
      step C P (pair a₂ b₁ []) (.act .a env (.resume na.calls.length)) =
        pair a₃ b₁ [(.a, keyInitPacket na.transport.senderId result)] ∧
      step C P (pair a₃ b₁ [(.a, keyInitPacket na.transport.senderId result)])
          (.deliver .a env (keyInitPacket na.transport.senderId result)) =
        pair a₃ b₂ [(.b, keyAckPacket C nb.transport.senderId env key)] ∧
      step C P (pair a₃ b₂ [(.b, keyAckPacket C nb.transport.senderId env key)])
          (.deliver .b env (keyAckPacket C nb.transport.senderId env key)) = pair a₄ b₂ [] ∧
      slotKey a₃.transport (P.addr .b) = some key ∧
      (Established b₂.transport (P.addr .a) key (P.bundle C .a) ∧
        SameTraffic nb.transport b₂.transport) ∧
      Established a₄.transport (P.addr .b) key (P.bundle C .b) ∧
      SameTraffic na.transport a₄.transport := by
  have hannounced : ∀ (x : Side) (wire : Bytes), packBundle (P.bundle C x) = .ok wire →
      announced C wire = some (P.bundle C x) := by
    intro x wire hwire
    obtain ⟨wire', hpack, _, hannounced⟩ := announced_wire C (P.identity x) (hown x)
    rwa [Except.ok.inj (hwire.symm.trans hpack)]
  have ha := owned_of_started hna hcbs.1
  have hb := owned_of_started hnb hcbs.2
  obtain ⟨a₁, hstep₁, hmid₁⟩ := owned_connect ha (hown .a) (hown .b) env hwireA
  obtain ⟨b₁, hstep₂, hb₁, _, _, hslot⟩ := owned_handshake na.transport.senderId hb
    env hwireB (hannounced .a wireA hwireA) (started_wellFormed _ _ hnb).pending
  obtain ⟨a₂, hstep₃, hmid₂⟩ := midway_handshakeResp nb.transport.senderId hmid₁ env
    (hannounced .b wireB hwireB)
  obtain ⟨a₃, hstep₄, hmid₃⟩ := midway_resume hmid₂ env rfl hoffer
  obtain ⟨b₂, hstep₅, _, hestB⟩ := owned_keyInit na.transport.senderId hb₁ hslot env env
    hoffer
  obtain ⟨a₄, hstep₆, hestA⟩ := midway_keyAck nb.transport.senderId haead hmid₃ rfl rfl
    env env
  refine ⟨a₁, a₂, a₃, a₄, b₁, b₂, ⟨hmid₁.owned, hmid₃.owned⟩, ⟨hb, hb₁⟩, ?_, ?_, ?_, ?_, ?_, ?_, ?_,
    hestB, hestA⟩
  · rw [act_a hstep₁, posted_sendto, List.nil_append]
  · rw [deliver_to_b hstep₂, posted_sendto, List.nil_append]
  · rw [deliver_to_a hstep₃]
    rfl
  · rw [act_a hstep₄, posted_sendto, List.nil_append]
  · rw [deliver_to_b hstep₅, posted_sendto, List.nil_append]
  · rw [deliver_to_a hstep₆]
    rfl
  · have hslot := midway_slot hmid₃
    simp only [Side.other] at hslot
    rw [slotKey, hslot]
    rfl

/-- Both nodes connect before either has answered: each registers the key the other
one has encapsulated, and both acknowledgements find their slot gone. -/
theorem crossed_run (hown : ∀ x, HonestIdentity C (P.identity x))
    (hna : Started (P.identity .a) na) (hnb : Started (P.identity .b) nb)
    (hcbs : na.transport.connectedCbs = [] ∧ nb.transport.connectedCbs = []) {env' : Env}
    {result result' : KEMEncapResult} {key key' : SessionKey}
    (hoffer : Offer C P .a env result key) (hoffer' : Offer C P .b env' result' key') :
    ∃ labels na' nb', Runs.run (step C P) (pair na nb []) labels = pair na' nb' [] ∧
      bound na'.transport (P.identity .b).deviceId = some (P.addr .b, key', P.bundle C .b) ∧
      bound nb'.transport (P.identity .a).deviceId = some (P.addr .a, key, P.bundle C .a) := by
  obtain ⟨wireA, hwireA, _, hannouncedA⟩ := announced_wire C (P.identity .a) (hown .a)
  obtain ⟨wireB, hwireB, _, hannouncedB⟩ := announced_wire C (P.identity .b) (hown .b)
  have ha := owned_of_started hna hcbs.1
  have hb := owned_of_started hnb hcbs.2
  let sidA := na.transport.senderId
  let sidB := nb.transport.senderId
  obtain ⟨a₁, hstepA₁, ha₁⟩ := owned_connect ha (hown .a) (hown .b) env hwireA
  obtain ⟨b₁, hstepB₁, hb₁⟩ := owned_connect hb (hown .b) (hown .a) env' hwireB
  obtain ⟨b₂, hstepB₂, hb₂⟩ := midway_handshake sidA hb₁ env' hwireB hannouncedA
  obtain ⟨a₂, hstepA₂, ha₂⟩ := midway_handshake sidB ha₁ env hwireA hannouncedB
  obtain ⟨a₃, hstepA₃, ha₃⟩ := midway_handshakeResp sidB ha₂ env hannouncedB
  obtain ⟨b₃, hstepB₃, hb₃⟩ := midway_handshakeResp sidA hb₂ env' hannouncedA
  obtain ⟨a₄, hstepA₄, ha₄⟩ := midway_resume ha₃ env rfl hoffer
  obtain ⟨b₄, hstepB₄, hb₄⟩ := midway_resume hb₃ env' rfl hoffer'
  obtain ⟨b₅, hstepB₅, hfreeB, ⟨⟨_, hboundB⟩, _⟩⟩ := owned_keyInit sidA hb₄.owned
    (by rw [midway_slot hb₄]; rfl) env' env hoffer
  obtain ⟨a₅, hstepA₅, hfreeA, ⟨⟨_, hboundA⟩, _⟩⟩ := owned_keyInit sidB ha₄.owned
    (by rw [midway_slot ha₄]; rfl) env env' hoffer'
  have hstepA₆ := keyAck_dropped (C := C) sidB key env env' hfreeA
  have hstepB₆ := keyAck_dropped (C := C) sidA key' env' env hfreeB
  refine ⟨[.act .a env .connect, .act .b env' .connect,
    .deliver .a env' (frame .handshake sidA wireA zeroMac),
    .deliver .b env (frame .handshake sidB wireB zeroMac),
    .deliver .b env (frame .handshakeResp sidB wireB zeroMac),
    .deliver .a env' (frame .handshakeResp sidA wireA zeroMac),
    .act .a env (.resume na.calls.length), .act .b env' (.resume nb.calls.length),
    .deliver .a env' (keyInitPacket sidA result), .deliver .b env (keyInitPacket sidB result'),
    .deliver .b env (keyAckPacket C sidB env' key), .deliver .a env' (keyAckPacket C sidA env key')],
    a₅, b₅, ?_, hboundA, hboundB⟩
  rw [Runs.run_cons, act_a hstepA₁, posted_sendto, List.nil_append]
  rw [Runs.run_cons, act_b hstepB₁, posted_sendto, List.cons_append, List.nil_append]
  rw [Runs.run_cons, deliver_to_b hstepB₂, posted_sendto, List.cons_append, List.nil_append]
  rw [Runs.run_cons, deliver_to_a hstepA₂, posted_sendto, List.cons_append, List.nil_append]
  rw [Runs.run_cons, deliver_to_a hstepA₃, posted_nil, List.append_nil]
  rw [Runs.run_cons, deliver_to_b hstepB₃, posted_nil, List.append_nil]
  rw [Runs.run_cons, act_a hstepA₄, posted_sendto, List.nil_append]
  rw [Runs.run_cons, act_b hstepB₄, posted_sendto, List.cons_append, List.nil_append]
  rw [Runs.run_cons, deliver_to_b hstepB₅, posted_sendto, List.cons_append, List.nil_append]
  rw [Runs.run_cons, deliver_to_a hstepA₅, posted_sendto, List.cons_append, List.nil_append]
  rw [Runs.run_cons, deliver_to_a hstepA₆, posted_nil, List.append_nil]
  rw [Runs.run_cons, deliver_to_b hstepB₆, posted_nil, List.append_nil, Runs.run_nil]

end Runs

end Mesim.Pair
