import Mesim.Advertisement
import Mesim.KeyAgreement
import Mesim.PublishedBundle

/-!
From an advertisement to a session.
A node that hears of a new peer asks the peer's API for its bundle and connects to the
advertised address. Whatever the two nodes have done before, and whatever else is on
its way, an undisturbed exchange then leaves both with a session under one key, each
bound to the other's identity and address.
-/
namespace Mesim.AutoConnect

open Octets TextCodec Crypto Identity Packet Transport Operations Dispatch Nodes Honest Pair
open Discovery (MeshDiscovery PeerInfo Notice handle)
open Advertisement PublishedBundle
open MeshTransport

section Model

/-- `_on_peer_discovered`: the URL it asks for the bundle, if the record had an API port. -/
def onPeerDiscovered (peer : PeerInfo) : Option String :=
  if peer.apiPort ≤ 0 then none
  else some ("http://" ++ peer.addr ++ ":" ++ decimal peer.apiPort ++ "/bundle")

end Model

section Network

variable {C : Suite} {P : Parties} {s : System} {x : Side} {n n' m m' : Node}

/-- Where the two nodes stand, seen from one side. -/
structure At (s : System) (x : Side) (n m : Node) : Prop where
  here : s.node x = n
  there : s.node x.other = m

theorem At.swap (h : At s x n m) : At s x.other m n :=
  ⟨h.there, (congrArg s.node (other_other x)).trans h.here⟩

theorem At.back (h : At s x.other m n) : At s x n m :=
  ⟨(congrArg s.node (other_other x)).symm.trans h.there, h.here⟩

/-- An action of the node leaves the other one alone and sends it what it is sent. -/
theorem At.act (h : At s x n m) {op : Op} {env : Env} {effects : List Effect}
    (hstep : n.step C env (event C P x op) = (n', effects)) :
    At (step C P s (.act x env op)) x n' m ∧
      ∀ packet, .sendto packet (P.addr x.other) ∈ effects →
        (x, packet) ∈ (step C P s (.act x env op)).wire := by
  have heq : step C P s (.act x env op) = advance P s x s.wire (n', effects) := by
    rw [step, h.here, hstep]
  rw [heq]
  refine ⟨⟨Function.update_self _ _ _, (Function.update_of_ne (other_ne x) _ _).trans h.there⟩, ?_⟩
  intro packet hsent
  exact List.mem_append_right _ ((mem_posted P x x packet effects).mpr ⟨rfl, hsent⟩)

/-- A packet of the node reaches the other one. -/
theorem At.receive (h : At s x n m) {env : Env} {effects : List Effect} {packet : Bytes}
    (hmem : (x, packet) ∈ s.wire)
    (hstep : m.step C env (.datagram packet (P.addr x)) = (m', effects)) :
    At (step C P s (.deliver x env packet)) x n m' ∧
      ∀ answer, .sendto answer (P.addr x) ∈ effects →
        (x.other, answer) ∈ (step C P s (.deliver x env packet)).wire := by
  have heq : step C P s (.deliver x env packet) =
      advance P s x.other (s.wire.erase (x, packet)) (m', effects) := by
    rw [step, if_pos hmem, h.there, hstep]
  rw [heq]
  refine ⟨⟨(Function.update_of_ne (other_ne x).symm _ _).trans h.here, Function.update_self _ _ _⟩,
    ?_⟩
  intro answer hsent
  refine List.mem_append_right _ ((mem_posted P x.other x.other answer effects).mpr ⟨rfl, ?_⟩)
  rw [other_other]
  exact hsent

end Network

section Calls

variable {C : Suite} {P : Parties} {x : Side} {n m : Node} {i ref : ℕ} {h : PendingHandshake}
variable {phase : ConnectPhase} {wire : Bytes} {key : SessionKey} {result : KEMEncapResult}

/-- A node of the network, whatever sessions and callbacks it has. -/
structure Open (P : Parties) (x : Side) (n : Node) : Prop where
  identity : n.transport.identity = P.identity x
  udpTransport : n.transport.udpTransport = true

/-- A call of connect() to the other node is under way and holds the slot. -/
structure Calling (C : Suite) (P : Parties) (x : Side) (n : Node) (i ref : ℕ)
    (h : PendingHandshake) (phase : ConnectPhase) : Prop extends Open P x n where
  pending : n.transport.pending.get? (P.addr x.other) = some ref
  object : n.transport.handshakes[ref]? = some h
  call : n.calls[i]? = some ⟨P.addr x.other, P.bundle C x.other, ref, phase⟩

theorem Open.sendRaw (hn : Open P x n) (packet : Bytes) (addr : Addr) :
    n.transport.sendRaw packet addr = [.sendto packet addr] := by
  rw [MeshTransport.sendRaw, if_pos hn.udpTransport]

theorem calling_connect (hn : Open P x n) (hown : HonestIdentity C (P.identity x))
    (hpeer : HonestIdentity C (P.identity x.other)) (hwire : packBundle (P.bundle C x) = .ok wire)
    (env : Env) :
    ∃ n', n.step C env (event C P x .connect) =
        (n', [.sendto (frame .handshake n.transport.senderId wire zeroMac) (P.addr x.other)]) ∧
      Calling C P x n' n.calls.length n.transport.handshakes.length
        ⟨P.addr x.other, some (P.bundle C x.other), none, false, false⟩ .awaitResp := by
  obtain ⟨own, hpack, hstep⟩ := step_connect C env n (P.addr x.other) (P.bundle C x.other)
    (by rw [hn.identity]; exact hown) (verify_getPublicBundle C _ hpeer.sign)
  rw [hn.identity] at hpack
  have heq : own = wire := Except.ok.inj (hpack.symm.trans hwire)
  rw [heq, hn.sendRaw] at hstep
  exact ⟨_, hstep, ⟨hn.identity, hn.udpTransport⟩, OrderedDict.get?_set_self _ _ _,
    List.getElem?_concat_length, List.getElem?_concat_length⟩

theorem calling_handshakeResp (hn : Calling C P x n i ref h phase) (sid : Fixed 32)
    (hwire : announced C wire = some (P.bundle C x.other)) (env : Env) :
    ∃ n', n.step C env (.datagram (frame .handshakeResp sid wire zeroMac) (P.addr x.other)) =
        (n', []) ∧
      Calling C P x n' i ref
        { h with peerBundle := some (P.bundle C x.other), respEvent := true } phase := by
  have hstep := step_handshakeResp C env n (P.addr x.other) sid wire _ ref hwire hn.pending
  exact ⟨_, hstep, ⟨hn.identity, hn.udpTransport⟩, hn.pending,
    getElem?_modifyHandshake _ _ _ _ hn.object, hn.call⟩

theorem getElem?_setPhase {call : ConnectCall} (hcall : n.calls[i]? = some call) :
    (n.setPhase i phase).calls[i]? = some { call with phase := phase } := by
  show (n.calls.modify i _)[i]? = _
  rw [List.getElem?_modify, hcall]
  simp

theorem calling_resume (hn : Calling C P x n i ref h .awaitResp) (hresp : h.respEvent = true)
    (env : Env) (hoffer : Offer C P x env result key) :
    ∃ n', n.step C env (event C P x (.resume i)) =
        (n', [.sendto (keyInitPacket n.transport.senderId result) (P.addr x.other)]) ∧
      Calling C P x n' i ref { h with ourSessionKey := some key } (.awaitAck key) := by
  have hstep := step_encapsulate C env n i _ h result key hn.call rfl hn.object hresp
    (by rw [hn.identity]; exact hoffer.encap)
  rw [hn.sendRaw] at hstep
  exact ⟨_, hstep, ⟨hn.identity, hn.udpTransport⟩, hn.pending,
    getElem?_modifyHandshake _ _ _ _ hn.object, getElem?_setPhase hn.call⟩

/-- The acknowledgement of the call's key registers it and wakes the call. -/
theorem calling_keyAck (haead : C.AeadCorrect) (hn : Calling C P x n i ref h phase)
    (hkey : h.ourSessionKey = some key) (hbundle : h.peerBundle = some (P.bundle C x.other))
    (sid : Fixed 32) (env env' : Env) :
    ∃ n', (∃ effects, n.step C env (.datagram (keyAckPacket C sid env' key) (P.addr x.other)) =
        (n', effects)) ∧
      Calling C P x n' i ref { h with ackEvent := true } phase ∧
      Established n'.transport (P.addr x.other) key (P.bundle C x.other) := by
  have hstep := step_keyAck C haead env n (P.addr x.other) sid (env'.nonce 0) env'.filler key _ ref
    h hn.pending hn.object hkey hbundle
  obtain ⟨hbyAddr, hsession⟩ := established_installSession n.transport env.time (P.addr x.other) key
    (P.bundle C x.other)
  refine ⟨_, ⟨_, hstep⟩, ⟨⟨hn.identity, hn.udpTransport⟩, hn.pending, ?_, hn.call⟩, hbyAddr, hsession⟩
  exact getElem?_modifyHandshake _ _ _ _ hn.object

/-- The second wait ends: the call frees the slot and returns True. -/
theorem calling_returned (hn : Calling C P x n i ref h (.awaitAck key)) (hack : h.ackEvent = true)
    (hest : Established n.transport (P.addr x.other) key (P.bundle C x.other)) (env : Env) :
    ∃ n', n.step C env (event C P x (.resume i)) = (n', []) ∧
      n'.calls[i]? = some ⟨P.addr x.other, P.bundle C x.other, ref, .returned true⟩ ∧
      Established n'.transport (P.addr x.other) key (P.bundle C x.other) := by
  refine ⟨Node.setPhase { n with transport := n.transport.closeSlot (P.addr x.other) } i
    (.returned true), ?_, getElem?_setPhase hn.call, hest.byAddr, hest.session⟩
  simp only [event, Node.step, Node.resume, hn.call, hn.object, hack, if_true]

/-- A node that is called opens a slot for the caller's bundle or notes it in the one it has. -/
theorem open_handshake (hm : Open P x.other m) (hvalid : WellFormed m) (sid : Fixed 32)
    {own : Bytes} (hown : packBundle (P.bundle C x.other) = .ok own)
    (hwire : announced C wire = some (P.bundle C x)) (env : Env) :
    ∃ m', m.step C env (.datagram (frame .handshake sid wire zeroMac) (P.addr x)) =
        (m', [.sendto (frame .handshakeResp m.transport.senderId own zeroMac) (P.addr x)]) ∧
      Open P x.other m' ∧ (m'.transport.slot (P.addr x)).bind PendingHandshake.peerBundle =
        some (P.bundle C x) := by
  have hstep := step_handshake C env m (P.addr x) sid wire own (P.bundle C x) hwire
    (by rw [hm.identity]; exact hown)
  rw [hm.sendRaw] at hstep
  have hsame := sameTraffic_notePeerBundle m.transport (P.addr x) (P.bundle C x)
  exact ⟨_, hstep, ⟨hsame.identity.trans hm.identity, hsame.udpTransport.trans hm.udpTransport⟩,
    peerBundle_notePeerBundle _ _ _ hvalid.pending⟩

/-- Its KEY_INIT registers the caller's key, whatever session there was before. -/
theorem open_keyInit (hm : Open P x.other m)
    (hslot : (m.transport.slot (P.addr x)).bind PendingHandshake.peerBundle = some (P.bundle C x))
    (sid : Fixed 32) (env env' : Env) (hoffer : Offer C P x env' result key) :
    ∃ m' effects, m.step C env (.datagram (keyInitPacket sid result) (P.addr x)) = (m', effects) ∧
      .sendto (keyAckPacket C m.transport.senderId env key) (P.addr x) ∈ effects ∧
      Established m'.transport (P.addr x) key (P.bundle C x) := by
  have hstep := step_keyInit C env m (P.addr x) sid result.ciphertext _ key hslot
    (by rw [hm.identity]; exact hoffer.decap)
  rw [hm.sendRaw] at hstep
  obtain ⟨hbyAddr, hsession⟩ := established_installSession m.transport env.time (P.addr x) key
    (P.bundle C x)
  exact ⟨_, _, hstep, List.mem_append_left _ (List.mem_singleton.mpr rfl), hbyAddr, hsession⟩

end Calls

section Results

variable (C : Suite) (P : Parties)

/-- What connect() in state `s` makes the two nodes do when nothing disturbs it. -/
def exchange (x : Side) (i : ℕ) (env : ℕ → Env) (hello answer offer ack : Bytes) : List Label :=
  [.act x (env 0) .connect, .deliver x (env 1) hello, .deliver x.other (env 2) answer,
    .act x (env 3) (.resume i), .deliver x (env 4) offer, .deliver x.other (env 5) ack,
    .act x (env 6) (.resume i)]

/-- The exchange makes the call return True and leaves both nodes with one key, each bound to
the other's bundle and address. -/
def Connects (x : Side) (s : System) (env : ℕ → Env) : Prop :=
  ∃ key hello answer offer ack,
    let s' := Runs.run (step C P) s
      (exchange x (s.node x).calls.length env hello answer offer ack)
    Established (s'.node x).transport (P.addr x.other) key (P.bundle C x.other) ∧
    Established (s'.node x.other).transport (P.addr x) key (P.bundle C x) ∧
    (s'.node x).calls[(s.node x).calls.length]? = some ⟨P.addr x.other, P.bundle C x.other,
      (s.node x).transport.handshakes.length, .returned true⟩

/-- From any state of two honest nodes an undisturbed connect() returns True and leaves both
with the same key for each other. -/
theorem exchange_establishes (haead : C.AeadCorrect) (x : Side)
    (hown : ∀ y, HonestIdentity C (P.identity y))
    (hdh : C.DhCorrect (P.identity x).encryptKeypair (P.identity x.other).encryptKeypair)
    (hkem : C.KemCorrect (P.identity x.other).kemKeypair) (s : System)
    (hs : ∀ y, Reachable C (P.identity y) (s.node y)) (env : ℕ → Env) :
    Connects C P x s env := by
  have hopen : ∀ y, Open P y (s.node y) := fun y =>
    ⟨(reachable_device C _ _ (hs y)).1, (reachable_device C _ _ (hs y)).2⟩
  obtain ⟨wire, hwire, _, hannounced⟩ := announced_wire C (P.identity x) (hown x)
  obtain ⟨wire', hwire', _, hannounced'⟩ := announced_wire C (P.identity x.other) (hown x.other)
  obtain ⟨result, key, hoffer⟩ := exists_offer C P x (env 3) hdh hkem
  have h₀ : At s x (s.node x) (s.node x.other) := ⟨rfl, rfl⟩
  obtain ⟨n₁, hn₁, hcalling₁⟩ := calling_connect (hopen x) (hown x) (hown x.other) hwire (env 0)
  obtain ⟨h₁, hsent₁⟩ := h₀.act hn₁
  obtain ⟨m₂, hm₂, hopen₂, hslot₂⟩ := open_handshake (hopen x.other)
    (reachable_wellFormed C _ _ (hs x.other)) (s.node x).transport.senderId hwire' hannounced (env 1)
  obtain ⟨h₂, hsent₂⟩ := h₁.receive (hsent₁ _ (List.mem_singleton.mpr rfl)) hm₂
  obtain ⟨n₃, hn₃, hcalling₃⟩ := calling_handshakeResp hcalling₁
    (s.node x.other).transport.senderId hannounced' (env 2)
  obtain ⟨h₃, _⟩ := h₂.swap.receive (hsent₂ _ (List.mem_singleton.mpr rfl)) hn₃
  obtain ⟨n₄, hn₄, hcalling₄⟩ := calling_resume hcalling₃ rfl (env 3) hoffer
  obtain ⟨h₄, hsent₄⟩ := h₃.back.act hn₄
  obtain ⟨m₅, effects₅, hm₅, hack, hest⟩ := open_keyInit hopen₂ hslot₂ n₃.transport.senderId (env 4)
    (env 3) hoffer
  obtain ⟨h₅, hsent₅⟩ := h₄.receive (hsent₄ _ (List.mem_singleton.mpr rfl)) hm₅
  obtain ⟨n₆, ⟨effects₆, hn₆⟩, hcalling₆, hest₆⟩ := calling_keyAck haead hcalling₄ rfl rfl
    m₂.transport.senderId (env 5) (env 4)
  obtain ⟨h₆, _⟩ := h₅.swap.receive (hsent₅ _ hack) hn₆
  obtain ⟨n₇, hn₇, hcall, hest₇⟩ := calling_returned hcalling₆ rfl hest₆ (env 6)
  obtain ⟨h₇, _⟩ := h₆.back.act hn₇
  refine ⟨key, frame .handshake (s.node x).transport.senderId wire zeroMac,
    frame .handshakeResp (s.node x.other).transport.senderId wire' zeroMac,
    keyInitPacket n₃.transport.senderId result,
    keyAckPacket C m₂.transport.senderId (env 4) key, ?_⟩
  intro s'
  have hat : At s' x n₇ m₅ := h₇
  rw [hat.here, hat.there]
  exact ⟨hest₇, hest, hcall⟩

/-- A node that has lost sight of a peer, or never saw it, and hears its advertisement asks its
API; what the peer publishes there makes it connect, and the undisturbed exchange ends with one
key on both sides, whatever state the two nodes were in. -/
theorem discovery_establishes (haead : C.AeadCorrect) (x : Side)
    (hown : ∀ y, HonestIdentity C (P.identity y))
    (hdh : C.DhCorrect (P.identity x).encryptKeypair (P.identity x.other).encryptKeypair)
    (hkem : C.KemCorrect (P.identity x.other).kemKeypair) (s : System)
    (hs : ∀ y, Reachable C (P.identity y) (s.node y)) (env : ℕ → Env)
    (events : List Discovery.Event) (d : MeshDiscovery)
    (hd : Runs.run Discovery.step (MeshDiscovery.init (P.identity x)) events = d)
    (name : String) (apiPort : ℤ) (info : Discovery.ServiceInfo)
    (hbuild : buildServiceInfo (P.identity x.other) (P.addr x.other).1 (P.addr x.other).2 apiPort =
      .ok (name, info))
    (hapi : 0 < apiPort) (hother : idPrefix (P.identity x.other) ≠ idPrefix (P.identity x))
    (hnew : d.peers.get? (idPrefix (P.identity x.other)) = none) (now : ℚ) :
    ∃ peer, (handle d (.added name (some info) now)).2 = some (.discovered peer) ∧
      onPeerDiscovered peer = some ("http://" ++ (P.addr x.other).1 ++ ":" ++ decimal apiPort ++
        "/bundle") ∧
      fetchAndConnect C (s.node x) (peer.addr, peer.port)
          (.answered 200 (getBundle C (P.identity x.other))) =
        (s.node x).step C (env 0) (event C P x .connect) ∧
      Connects C P x s env := by
  have htidy := tidy_run (P.identity x) events
  rw [hd] at htidy
  obtain ⟨peer, _, _, _, haddr, hport, hpeerApi, hnotice⟩ := added_advertised htidy hbuild hother now
  rw [if_pos hnew] at hnotice
  refine ⟨peer, hnotice, ?_, ?_, exchange_establishes C P haead x hown hdh hkem s hs env⟩
  · rw [onPeerDiscovered, hpeerApi, haddr, if_neg (not_le.mpr hapi)]
  · rw [haddr, hport]
    simp only [fetchAndConnect, connectable_getBundle, ne_eq, not_true_eq_false, if_false]
    rfl

theorem discovery_establishes_stub : ∃ (na nb : Node) (peer : PeerInfo),
    fetchAndConnect stub na (peer.addr, peer.port) (.answered 200 (getBundle stub bravo)) =
      na.step stub stillEnv (event stub KeyAgreement.stubParties .a .connect) ∧
    Connects stub KeyAgreement.stubParties .a (pair na nb []) fun _ => stillEnv := by
  obtain ⟨na, nb, hna, hnb, _⟩ := KeyAgreement.exists_initial
  have hok : (buildServiceInfo bravo "10.0.0.2" 7000 8080).isOk = true := by decide +kernel
  cases hbuild : buildServiceInfo bravo "10.0.0.2" 7000 8080 with
  | error e =>
    rw [hbuild] at hok
    cases hok
  | ok found =>
    obtain ⟨name, info⟩ := found
    obtain ⟨peer, _, _, hfetch, hconnects⟩ := discovery_establishes stub KeyAgreement.stubParties
      stub_aeadCorrect .a KeyAgreement.honest_stubParties (stub_dhCorrect _ _)
      (stub_kemCorrect _) (pair na nb [])
      (fun y => by cases y <;> exact Runs.Reachable.of_initial ‹_›) (fun _ => stillEnv) [] _ rfl name
      8080 info hbuild (by decide) (by decide) rfl 0
    exact ⟨na, nb, peer, hfetch, hconnects⟩

end Results

end Mesim.AutoConnect
