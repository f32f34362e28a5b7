import Mesim.Pair

/-!
Two honest nodes that connect to each other.
The network loses nothing and delivers in any order; either node may start any
number of connect() calls. Two sessions agree on their key, or an acknowledgement
that will make them agree is on its way, as long as no step of the run breaks a
handshake that the other node has already committed to.
-/
namespace Mesim.KeyAgreement

open Octets TextCodec Crypto Identity Packet Transport Operations Dispatch Nodes Fragments Honest
open Pair
open MeshTransport Outcome

variable (C : Suite) (P : Parties)

def held (t : MeshTransport) (peerId : String) : Option SessionKey :=
  (t.sessions.get? peerId).map SessionInfo.sessionKey

/-- The key of the session a node holds for the other. -/
def heldKey (s : System) (x : Side) : Option SessionKey :=
  held (s.node x).transport (P.identity x.other).deviceId

/-- The key a node has encapsulated to the other and still keeps in the slot. -/
def offeredKey (s : System) (x : Side) : Option SessionKey :=
  slotKey (s.node x).transport (P.addr x.other)

/-- No handshake packet is on its way. -/
def Settled (s : System) : Prop :=
  ∀ x packet p, (x, packet) ∈ s.wire → parsePacket packet = .ok p → p.ptype.isHandshake = false

def IsKeyInit (packet : Bytes) : Prop :=
  ∃ sid payload, parsePacket packet = .ok ⟨.keyInit, sid, payload⟩

/-- The operation replaces or frees the slot of the other node's address. -/
def FreesSlot (n : Node) : Op → Prop
  | .connect => True
  | .timeout i => ∃ call, n.calls[i]? = some call ∧ Waiting call
  | .resume i => ∃ call key, n.calls[i]? = some call ∧ call.phase = .awaitAck key ∧ Acked n call
  | _ => False

/-- The condition on a step. A handshake packet may register a key only if the
sender has no session yet, or has that key, or, for a KEY_INIT, still keeps the key
in its slot. And a node whose slot holds the key the other one has registered may not
replace or free it while its own session has a different key. -/
def Orderly (s : System) : Label → Prop
  | .deliver sender _ packet => (sender, packet) ∈ s.wire → ∀ key bundle,
      installs C (s.node sender.other).transport packet (P.addr sender) = some (key, bundle) →
      heldKey P s sender = none ∨ heldKey P s sender = some key ∨
        (IsKeyInit packet ∧ offeredKey P s sender = some key)
  | .act x _ op => FreesSlot (s.node x) op → ∀ key, offeredKey P s x = some key →
      heldKey P s x.other = some key → heldKey P s x = none ∨ heldKey P s x = some key

section Local

/-- A HANDSHAKE or HANDSHAKE_RESP in this packet announces the sender's own bundle. -/
def Genuine (x : Side) (packet : Bytes) : Prop :=
  ∀ p bundle, parsePacket packet = .ok p → (p.ptype = .handshake ∨ p.ptype = .handshakeResp) →
    announced C p.payload = some bundle → bundle = P.bundle C x

/-- What holds of each node by itself. -/
structure Sound (x : Side) (n : Node) : Prop where
  wellFormed : WellFormed n
  identity : n.transport.identity = P.identity x
  udpTransport : n.transport.udpTransport = true
  genuine : ∀ (i : ℕ) h, n.transport.handshakes[i]? = some h →
    h.peerBundle = some (P.bundle C x.other)
  calls : ∀ (i : ℕ) call, n.calls[i]? = some call → call.peerAddr = P.addr x.other
  traffic : TrafficInFlight n.transport

theorem held_eq_bound (t : MeshTransport) (peerId : String) :
    held t peerId = (bound t peerId).map (fun b => b.2.1) := by
  rw [held, bound, Option.map_map]
  rfl

theorem genuine_of_isTraffic (x : Side) (packet : Bytes) (h : IsTraffic packet) :
    Genuine C P x packet := by
  intro p bundle hparse htype _
  have hdata := h p hparse
  rcases htype with htype | htype <;> rw [htype] at hdata <;> contradiction

theorem genuine_unannounced (x : Side) (ptype : PacketType) (sid : Fixed 32) (payload : Bytes)
    (hlen : payload.length < 65536) (hne : ptype ≠ .handshake ∧ ptype ≠ .handshakeResp) :
    Genuine C P x (frame ptype sid payload zeroMac) := by
  intro p bundle hparse htype _
  rw [parsePacket_unkeyed ptype sid payload hlen] at hparse
  cases hparse
  rcases htype with htype | htype
  · exact absurd htype hne.1
  · exact absurd htype hne.2

theorem genuine_announcement (x : Side) (hown : HonestIdentity C (P.identity x))
    (ptype : PacketType) (sid : Fixed 32) (wire : Bytes)
    (hwire : packBundle (P.bundle C x) = .ok wire) :
    Genuine C P x (frame ptype sid wire zeroMac) := by
  obtain ⟨wire', hpack, hlen, hannounced⟩ := announced_wire C (P.identity x) hown
  have heq : wire = wire' := Except.ok.inj (hwire.symm.trans hpack)
  subst heq
  intro p bundle hparse _ hbundle
  rw [parsePacket_unkeyed ptype sid wire (by rw [hlen]; decide)] at hparse
  cases hparse
  rw [hannounced] at hbundle
  exact (Option.some.inj hbundle).symm

theorem genuine_modify (handshakes : List PendingHandshake) (Q : PendingHandshake → Prop) (ref : ℕ)
    (f : PendingHandshake → PendingHandshake) (hf : ∀ h, Q h → Q (f h))
    (hQ : ∀ (i : ℕ) h, handshakes[i]? = some h → Q h) (i : ℕ) (h : PendingHandshake)
    (hget : (handshakes.modify ref f)[i]? = some h) : Q h := by
  rw [List.getElem?_modify] at hget
  obtain ⟨x, hx, rfl⟩ := Option.map_eq_some_iff.mp hget
  split
  · exact hf x (hQ i x hx)
  · exact hQ i x hx

theorem genuine_append (handshakes : List PendingHandshake) (Q : PendingHandshake → Prop)
    (new : PendingHandshake) (hnew : Q new)
    (hQ : ∀ (i : ℕ) h, handshakes[i]? = some h → Q h) (i : ℕ) (h : PendingHandshake)
    (hget : (handshakes ++ [new])[i]? = some h) : Q h := by
  rcases List.mem_append.mp (List.mem_of_getElem? hget) with hold | hlast
  · obtain ⟨j, hj⟩ := List.getElem?_of_mem hold
    exact hQ j h hj
  · rw [List.mem_singleton.mp hlast]
    exact hnew

/-- What a slot of this node installs is under the other node's own bundle. -/
theorem installs_genuine (x : Side) (n : Node) (hn : Sound C P x n) (data : Bytes) (addr : Addr)
    (key : SessionKey) (bundle : PublicBundle)
    (h : installs C n.transport data addr = some (key, bundle)) :
    bundle = P.bundle C x.other := by
  have hslot : ∀ b, (n.transport.slot addr).bind PendingHandshake.peerBundle = some b →
      b = P.bundle C x.other := by
    intro b hb
    obtain ⟨hs, hget, hbundle⟩ := Option.bind_eq_some_iff.mp hb
    obtain ⟨ref, _, hget⟩ := Option.bind_eq_some_iff.mp hget
    rw [hn.genuine ref hs hget] at hbundle
    exact (Option.some.inj hbundle).symm
  unfold installs at h
  split at h
  · unfold keyInitInstalls at h
    split at h
    · contradiction
    · rename_i b hb
      split at h
      · split at h
        · contradiction
        · cases h
          exact hslot _ hb
      · contradiction
  · unfold keyAckInstalls at h
    split at h
    · contradiction
    · split at h
      · obtain ⟨b, hb, heq⟩ := Option.map_eq_some_iff.mp h
        cases heq
        exact hslot _ hb
      · contradiction
  · contradiction

/-- A slot that offers a key registers it when an acknowledgement under that key arrives. -/
theorem installs_of_ackOpens (x : Side) (n : Node) (hn : Sound C P x n) (data sid payload : Bytes)
    (addr : Addr) (key : SessionKey) (hparse : parsePacket data = .ok ⟨.keyAck, sid, payload⟩)
    (hkey : slotKey n.transport addr = some key) (hopens : ackOpens C key payload = true) :
    installs C n.transport data addr = some (key, P.bundle C x.other) := by
  obtain ⟨h, hslot, _⟩ := Option.bind_eq_some_iff.mp hkey
  obtain ⟨ref, _, hget⟩ := Option.bind_eq_some_iff.mp hslot
  simp only [installs, hparse, keyAckInstalls, hkey, hopens, if_true, hslot, Option.bind_some,
    hn.genuine ref h hget, Option.map_some]

theorem slotKey_modify (t : MeshTransport) (addr : Addr) (ref : ℕ)
    (f : PendingHandshake → PendingHandshake)
    (hf : ∀ h, (f h).ourSessionKey = h.ourSessionKey) :
    slotKey (t.modifyHandshake ref f) addr = slotKey t addr := by
  simp only [slotKey, MeshTransport.slot, modifyHandshake]
  cases t.pending.get? addr with
  | none => rfl
  | some r =>
    simp only [Option.bind_some, List.getElem?_modify]
    cases t.handshakes[r]? with
    | none => rfl
    | some h =>
      by_cases heq : ref = r
      · simp [heq, hf]
      · simp [heq]

/-- A datagram that installs nothing leaves the offered key where it is. -/
theorem slotKey_dispatch (env : Env) (t : MeshTransport) (data : Bytes) (addr : Addr)
    (h : installs C t data addr = none) :
    slotKey (dispatch C env t data addr).state addr = slotKey t addr := by
  have hcase := dispatch_case C env t data addr
  generalize dispatch C env t data addr = out at hcase
  cases hcase with
  | other out hsame _ _ => simp only [slotKey, hsame.slot]
  | handshake sid payload bundle out _ _ hstate _ =>
    rw [hstate]
    unfold notePeerBundle
    split
    · exact slotKey_modify t addr _ _ (fun _ => rfl)
    · rename_i hnone
      simp [slotKey, MeshTransport.slot, openSlot, hnone]
  | handshakeResp sid payload bundle ref _ _ _ => exact slotKey_modify t addr ref _ (fun _ => rfl)
  | keyInit sid payload key bundle hparse hinstall =>
    simp only [installs, hparse, hinstall] at h
    contradiction
  | keyAck sid payload key bundle ref hparse hinstall _ =>
    simp only [installs, hparse, hinstall] at h
    contradiction

theorem datagram_sound (x : Side) (hown : HonestIdentity C (P.identity x)) (env : Env) (n : Node)
    (hn : Sound C P x n) (data : Bytes) (hdata : Genuine C P x.other data) :
    Sound C P x (n.step C env (.datagram data (P.addr x.other))).1 ∧
    ∀ pkt addr, .sendto pkt addr ∈ (n.step C env (.datagram data (P.addr x.other))).2 →
      Genuine C P x pkt := by
  have hdevice := nodeStep_sameDevice C n (env, .datagram data (P.addr x.other))
  have hwf := nodeStep_wellFormed C n (env, .datagram data (P.addr x.other)) hn.wellFormed
  have htraffic := dispatch_trafficInFlight C env n.transport data (P.addr x.other) hn.traffic
  have hbuild : (∀ (i : ℕ) h,
      (dispatch C env n.transport data (P.addr x.other)).state.handshakes[i]? = some h →
        h.peerBundle = some (P.bundle C x.other)) →
      Sound C P x (n.step C env (.datagram data (P.addr x.other))).1 := fun hgenuine =>
    ⟨hwf, hdevice.identity.trans hn.identity, hdevice.udpTransport.trans hn.udpTransport, hgenuine,
      hn.calls, htraffic⟩
  show Sound C P x _ ∧ ∀ pkt addr, .sendto pkt addr ∈
    (dispatch C env n.transport data (P.addr x.other)).effects → _
  have hcase := dispatch_case C env n.transport data (P.addr x.other)
  generalize dispatch C env n.transport data (P.addr x.other) = out at hcase hbuild
  cases hcase with
  | other out hsame _ heffects =>
    refine ⟨hbuild (by rw [hsame.handshakes]; exact hn.genuine), ?_⟩
    exact fun pkt addr hmem => genuine_of_isTraffic C P x pkt (heffects pkt addr hmem)
  | handshake sid payload bundle out hparse hbundle hstate heffects =>
    have hpeer : bundle = P.bundle C x.other := hdata _ bundle hparse (Or.inl rfl) hbundle
    refine ⟨hbuild ?_, ?_⟩
    · rw [hstate, hpeer]
      unfold notePeerBundle
      split
      · exact genuine_modify n.transport.handshakes _ _ _ (fun _ _ => rfl) hn.genuine
      · exact genuine_append n.transport.handshakes _ _ rfl hn.genuine
    · intro pkt addr hmem
      rcases heffects with hnone | ⟨wire, hwire, hsent⟩
      · rw [hnone] at hmem
        contradiction
      · rw [hsent] at hmem
        have heq := mem_sendRaw _ _ _ _ hmem
        cases heq
        rw [hn.identity] at hwire
        exact genuine_announcement C P x hown _ _ wire hwire
  | handshakeResp sid payload bundle ref hparse hbundle _ =>
    have hpeer : bundle = P.bundle C x.other := hdata _ bundle hparse (Or.inr rfl) hbundle
    refine ⟨hbuild ?_, by simp⟩
    rw [hpeer]
    exact genuine_modify n.transport.handshakes _ _ _ (fun _ _ => rfl) hn.genuine
  | keyInit sid payload key bundle _ _ =>
    refine ⟨hbuild hn.genuine, ?_⟩
    intro pkt addr hmem
    rcases List.mem_append.mp hmem with hsent | hcb
    · have heq := mem_sendRaw _ _ _ _ hsent
      cases heq
      exact genuine_unannounced C P x .keyAck _ _
        (Nat.lt_of_le_of_lt (Nat.le_of_eq (keyAck_length C key _ _)) (by decide)) (by decide)
    · simp at hcb
  | keyAck sid payload key bundle ref _ _ _ =>
    exact ⟨hbuild (genuine_modify n.transport.handshakes _ _ _ (fun _ h => h) hn.genuine),
      by simp⟩

/-- What one of the node's own operations may do: it stays sound, touches no session
key, and loses the offered key only when it frees the slot. -/
structure Moves (x : Side) (n : Node) (op : Op) (out : Node × List Effect) : Prop where
  sound : Sound C P x out.1
  genuine : ∀ pkt addr, .sendto pkt addr ∈ out.2 → Genuine C P x pkt
  bound : ∀ peerId, bound out.1.transport peerId = bound n.transport peerId
  offered : FreesSlot n op ∨ ∀ key, slotKey n.transport (P.addr x.other) = some key →
    slotKey out.1.transport (P.addr x.other) = some key

theorem moves_of_sameHandshakes (x : Side) (n : Node) (hn : Sound C P x n) (op : Op)
    (t : MeshTransport) (effects : List Effect) (hsame : SameHandshakes n.transport t)
    (htraffic : TrafficInFlight t)
    (heffects : ∀ pkt addr, .sendto pkt addr ∈ effects → IsTraffic pkt) :
    Moves C P x n op ({ n with transport := t }, effects) where
  sound := ⟨hn.wellFormed.of_sameHandshakes t hsame, hsame.identity.trans hn.identity,
    hsame.udpTransport.trans hn.udpTransport, by rw [hsame.handshakes]; exact hn.genuine, hn.calls,
    htraffic⟩
  genuine pkt addr hmem := genuine_of_isTraffic C P x pkt (heffects pkt addr hmem)
  bound := hsame.bound
  offered := Or.inr fun key hkey => by rw [slotKey, hsame.slot]; exact hkey

theorem calls_peerAddr (n : Node) (i : ℕ) (phase : ConnectPhase) (addr : Addr)
    (hcalls : ∀ (j : ℕ) call, n.calls[j]? = some call → call.peerAddr = addr) (j : ℕ)
    (call : ConnectCall) (hcall : (n.setPhase i phase).calls[j]? = some call) :
    call.peerAddr = addr := by
  obtain ⟨old, hold, rfl⟩ := calls_setPhase n i j phase call hcall
  split
  · exact hcalls j old hold
  · exact hcalls j old hold

theorem connect_moves (x : Side) (hown : HonestIdentity C (P.identity x)) (env : Env) (n : Node)
    (hn : Sound C P x n) :
    Moves C P x n .connect (n.step C env (event C P x .connect)) := by
  have hdevice := nodeStep_sameDevice C n (env, event C P x .connect)
  have hwf := nodeStep_wellFormed C n (env, event C P x .connect) hn.wellFormed
  change SameDevice n.transport (n.connect C _ _).1.transport at hdevice
  change WellFormed (n.connect C _ _).1 at hwf
  show Moves C P x n .connect (n.connect C _ _)
  unfold Node.connect at hdevice hwf ⊢
  have hbegun := connectBegin_begun C n.transport (P.addr x.other) (P.bundle C x.other)
  generalize connectBegin C n.transport (P.addr x.other) (P.bundle C x.other) = out
    at hbegun hdevice hwf
  have hcalls : ∀ phase : ConnectPhase, ∀ (i : ℕ) call, (n.calls ++ [⟨P.addr x.other,
      P.bundle C x.other, n.transport.handshakes.length, phase⟩])[i]? = some call →
      call.peerAddr = P.addr x.other := by
    intro phase i call hcall
    rcases List.mem_append.mp (List.mem_of_getElem? hcall) with hold | hlast
    · obtain ⟨j, hj⟩ := List.getElem?_of_mem hold
      exact hn.calls j call hj
    · rw [List.mem_singleton.mp hlast]
  have hgenuine := genuine_append n.transport.handshakes
    (fun h => h.peerBundle = some (P.bundle C x.other))
    ⟨P.addr x.other, some (P.bundle C x.other), none, false, false⟩ rfl hn.genuine
  cases hbegun with
  | rejected e _ =>
    exact ⟨⟨hwf, hdevice.identity.trans hn.identity, hdevice.udpTransport.trans hn.udpTransport,
      hn.genuine, hcalls _, hn.traffic⟩, by simp [raise], fun _ => rfl, Or.inl trivial⟩
  | unsent e _ =>
    exact ⟨⟨hwf, hdevice.identity.trans hn.identity, hdevice.udpTransport.trans hn.udpTransport,
      hgenuine, hcalls _, hn.traffic⟩, by simp [raise], fun _ => rfl, Or.inl trivial⟩
  | sent wire _ hwire =>
    refine ⟨⟨hwf, hdevice.identity.trans hn.identity, hdevice.udpTransport.trans hn.udpTransport,
      hgenuine, hcalls _, hn.traffic⟩, ?_, fun _ => rfl, Or.inl trivial⟩
    intro pkt addr hmem
    have heq := mem_sendRaw _ _ _ _ hmem
    cases heq
    rw [hn.identity] at hwire
    exact genuine_announcement C P x hown _ _ wire hwire

theorem resume_moves (x : Side) (env : Env) (n : Node) (hn : Sound C P x n) (i : ℕ) :
    Moves C P x n (.resume i) (n.step C env (event C P x (.resume i))) := by
  have hdevice := nodeStep_sameDevice C n (env, .resume i)
  have hwf := nodeStep_wellFormed C n (env, .resume i) hn.wellFormed
  change SameDevice n.transport (n.resume C env i).1.transport at hdevice
  change WellFormed (n.resume C env i).1 at hwf
  show Moves C P x n (.resume i) (n.resume C env i)
  have hresumed := resume_resumed C env n i
  generalize n.resume C env i = out at hresumed hdevice hwf
  cases hresumed with
  | idle => exact ⟨hn, by simp, fun _ => rfl, Or.inr fun _ h => h⟩
  | failed call e hcall _ =>
    exact ⟨⟨hwf, hn.identity, hn.udpTransport, hn.genuine, calls_peerAddr n i _ _ hn.calls,
      hn.traffic⟩, by simp, fun _ => rfl, Or.inr fun _ h => h⟩
  | encapsulated call h result key hcall hphase hget _ _ =>
    refine ⟨⟨hwf, hn.identity, hn.udpTransport,
      genuine_modify n.transport.handshakes _ _ _ (fun _ h => h) hn.genuine,
      calls_peerAddr _ i _ _ hn.calls, hn.traffic⟩, ?_, fun _ => rfl, Or.inr ?_⟩
    · intro pkt addr hmem
      have heq := mem_sendRaw _ _ _ _ hmem
      cases heq
      exact genuine_unannounced C P x .keyInit _ _
        (by rw [List.Vector.toList_length]; decide) (by decide)
    · -- the call's own object has no key yet, so it is not the one in the slot
      intro key' hkey'
      have hnone := hn.wellFormed.callKey i call hcall
      rw [CallKey, hphase] at hnone
      obtain ⟨h', hget', hnone⟩ := hnone
      obtain ⟨hs, hslot, hskey⟩ := Option.bind_eq_some_iff.mp hkey'
      obtain ⟨ref, href, hsget⟩ := Option.bind_eq_some_iff.mp hslot
      have hne : call.handshake ≠ ref := by
        rintro rfl
        rw [hget'] at hsget
        cases hsget
        rw [hnone] at hskey
        contradiction
      show ((n.transport.pending.get? (P.addr x.other)).bind _).bind _ = some key'
      rw [href, Option.bind_some]
      show ((n.transport.handshakes.modify _ _)[ref]?).bind _ = some key'
      rw [List.getElem?_modify, hsget]
      simp [hne, hskey]
  | returned call h key hcall hphase hget hack =>
    exact ⟨⟨hwf, hn.identity, hn.udpTransport, hn.genuine, calls_peerAddr _ i _ _ hn.calls,
      hn.traffic⟩, by simp, fun _ => rfl, Or.inl ⟨call, key, hcall, hphase, h, hget, hack⟩⟩

theorem timeout_moves (x : Side) (env : Env) (n : Node) (hn : Sound C P x n) (i : ℕ) :
    Moves C P x n (.timeout i) (n.step C env (event C P x (.timeout i))) := by
  have hwf := nodeStep_wellFormed C n (env, .timeout i) hn.wellFormed
  change WellFormed (n.timeout i) at hwf
  show Moves C P x n (.timeout i) (n.timeout i, [])
  rcases timeout_eq n i with heq | ⟨call, hcall, hwaiting, heq⟩
  · rw [heq]
    exact ⟨hn, by simp, fun _ => rfl, Or.inr fun _ h => h⟩
  · rw [heq] at hwf ⊢
    exact ⟨⟨hwf, hn.identity, hn.udpTransport, hn.genuine, calls_peerAddr _ i _ _ hn.calls,
      hn.traffic⟩, by simp, fun _ => rfl, Or.inl ⟨call, hcall, hwaiting⟩⟩

theorem act_moves (x : Side) (hown : HonestIdentity C (P.identity x)) (env : Env) (n : Node)
    (hn : Sound C P x n) (op : Op) :
    Moves C P x n op (n.step C env (event C P x op)) := by
  cases op with
  | connect => exact connect_moves C P x hown env n hn
  | resume i => exact resume_moves C P x env n hn i
  | timeout i => exact timeout_moves C P x env n hn i
  | send peerId message =>
    obtain ⟨hstate, heffects⟩ := send_traffic C env n.transport peerId message hn.traffic
    exact moves_of_sameHandshakes C P x n hn _ _ _ (send_same C env n.transport peerId message)
      hstate heffects
  | retry =>
    obtain ⟨hstate, heffects⟩ := retrySweep_traffic env n.transport hn.traffic
    exact moves_of_sameHandshakes C P x n hn _ _ _ (retrySweep_same env n.transport) hstate heffects

end Local

section Agreement

/-- The slot of a node keeps the key the other one has registered, and an
acknowledgement under that key is on its way to it. -/
def Repairing (s : System) (x : Side) : Prop :=
  ∃ key, offeredKey P s x = some key ∧ heldKey P s x.other = some key ∧
    ∃ packet sid payload, (x.other, packet) ∈ s.wire ∧
      parsePacket packet = .ok ⟨.keyAck, sid, payload⟩ ∧ ackOpens C key payload = true

/-- Whatever sessions the two nodes hold for each other have the same key. -/
def Equal (s : System) (x : Side) : Prop :=
  ∀ key key', heldKey P s x = some key → heldKey P s x.other = some key' → key = key'

structure Invariant (s : System) : Prop where
  sound : ∀ x, Sound C P x (s.node x)
  wire : ∀ x packet, (x, packet) ∈ s.wire → Genuine C P x packet
  agree : ∀ x, Equal P s x ∨ Repairing C P s x ∨ Repairing C P s x.other

theorem equal_other (s : System) (x : Side) : Equal P s x.other ↔ Equal P s x := by
  unfold Equal
  rw [other_other]
  exact ⟨fun h key key' hk hk' => (h key' key hk' hk).symm,
    fun h key key' hk hk' => (h key' key hk' hk).symm⟩

theorem agree_of_side (s : System) (x : Side)
    (h : Equal P s x ∨ Repairing C P s x ∨ Repairing C P s x.other) (y : Side) :
    Equal P s y ∨ Repairing C P s y ∨ Repairing C P s y.other := by
  have hy : y = x ∨ y = x.other := by cases x <;> cases y <;> decide
  rcases hy with rfl | rfl
  · exact h
  · rw [equal_other, other_other]
    rcases h with h | h | h
    · exact Or.inl h
    · exact Or.inr (Or.inr h)
    · exact Or.inr (Or.inl h)

section Advance

variable (s : System) (x : Side) (wire : List (Side × Bytes)) (out : Node × List Effect)

theorem advance_node_self : (advance P s x wire out).node x = out.1 :=
  Function.update_self _ _ _

theorem advance_node_other : (advance P s x wire out).node x.other = s.node x.other :=
  Function.update_of_ne (other_ne x) _ _

theorem heldKey_advance_self : heldKey P (advance P s x wire out) x =
    held out.1.transport (P.identity x.other).deviceId := by
  rw [heldKey, advance_node_self]

theorem heldKey_advance_other : heldKey P (advance P s x wire out) x.other =
    heldKey P s x.other := by
  rw [heldKey, advance_node_other, heldKey]

theorem offeredKey_advance_self : offeredKey P (advance P s x wire out) x =
    slotKey out.1.transport (P.addr x.other) := by
  rw [offeredKey, advance_node_self]

theorem offeredKey_advance_other : offeredKey P (advance P s x wire out) x.other =
    offeredKey P s x.other := by
  rw [offeredKey, advance_node_other, offeredKey]

/-- The parts of the invariant that each node and each packet keeps by itself. -/
theorem advance_sound (hs : Invariant C P s) (hsound : Sound C P x out.1)
    (hwire : ∀ p ∈ wire, p ∈ s.wire)
    (hgenuine : ∀ pkt addr, .sendto pkt addr ∈ out.2 → Genuine C P x pkt)
    (hagree : Equal P (advance P s x wire out) x ∨ Repairing C P (advance P s x wire out) x ∨
      Repairing C P (advance P s x wire out) x.other) :
    Invariant C P (advance P s x wire out) := by
  refine ⟨?_, ?_, agree_of_side C P _ x hagree⟩
  · intro y
    have hy : y = x ∨ y = x.other := by cases x <;> cases y <;> decide
    rcases hy with rfl | rfl
    · rw [advance_node_self]
      exact hsound
    · rw [advance_node_other]
      exact hs.sound _
  · intro y packet hmem
    rcases List.mem_append.mp hmem with hold | hnew
    · exact hs.wire y packet (hwire _ hold)
    · obtain ⟨rfl, hsent⟩ := (mem_posted P x y packet out.2).mp hnew
      exact hgenuine packet _ hsent

end Advance

theorem act_invariant (hown : ∀ x, HonestIdentity C (P.identity x)) (s : System) (x : Side)
    (env : Env) (op : Op) (hs : Invariant C P s) (horderly : Orderly C P s (.act x env op)) :
    Invariant C P (step C P s (.act x env op)) := by
  have hmoves := act_moves C P x (hown x) env (s.node x) (hs.sound x) op
  show Invariant C P (advance P s x s.wire _)
  generalize (s.node x).step C env (event C P x op) = out at hmoves
  have hheld : heldKey P (advance P s x s.wire out) x = heldKey P s x := by
    rw [heldKey_advance_self, held_eq_bound, hmoves.bound, ← held_eq_bound, heldKey]
  have hheld' := heldKey_advance_other P s x s.wire out
  have hequal : Equal P s x → Equal P (advance P s x s.wire out) x := by
    intro h key key' hkey hkey'
    rw [hheld] at hkey
    rw [hheld'] at hkey'
    exact h key key' hkey hkey'
  refine advance_sound C P s x s.wire out hs hmoves.sound (fun _ h => h) hmoves.genuine ?_
  rcases hs.agree x with hsame | hself | hother
  · exact Or.inl (hequal hsame)
  · obtain ⟨key, hoffered, hpeer, packet, sid, payload, hmem, hparse, hopens⟩ := hself
    rcases hmoves.offered with hfrees | hkeeps
    · refine Or.inl (hequal fun k k' hk hk' => ?_)
      rw [hpeer] at hk'
      rcases horderly hfrees key hoffered hpeer with hnone | hsame
      · rw [hnone] at hk
        contradiction
      · rw [hsame] at hk
        exact Option.some.inj (hk.symm.trans hk')
    · refine Or.inr (Or.inl ⟨key, ?_, by rw [hheld', hpeer], packet, sid, payload,
        List.mem_append_left _ hmem, hparse, hopens⟩)
      rw [offeredKey_advance_self]
      exact hkeeps key hoffered
  · obtain ⟨key, hoffered, hpeer, packet, sid, payload, hmem, hparse, hopens⟩ := hother
    rw [other_other] at hpeer hmem
    refine Or.inr (Or.inr ⟨key, ?_, ?_, packet, sid, payload, ?_, hparse, hopens⟩)
    · rw [offeredKey_advance_other, hoffered]
    · rw [other_other, hheld, hpeer]
    · rw [other_other]
      exact List.mem_append_left _ hmem

/-- The acknowledgement a KEY_INIT is answered with opens under the new key. -/
theorem keyInit_acknowledged (haead : C.AeadCorrect) (x : Side) (env : Env) (n : Node)
    (hn : Sound C P x n) (data : Bytes) (key : SessionKey) (bundle : PublicBundle)
    (hinit : IsKeyInit data)
    (hinstall : installs C n.transport data (P.addr x.other) = some (key, bundle)) :
    ∃ packet sid payload,
      .sendto packet (P.addr x.other) ∈
        (n.step C env (.datagram data (P.addr x.other))).2 ∧
      parsePacket packet = .ok ⟨.keyAck, sid, payload⟩ ∧ ackOpens C key payload = true := by
  obtain ⟨sid, payload, hparse⟩ := hinit
  simp only [installs, hparse] at hinstall
  have hout := dispatch_keyInit C env n.transport data sid payload _ key bundle hparse hinstall
  refine ⟨_, _, _, ?_, parsePacket_unkeyed .keyAck n.transport.senderId _ ?_,
    ackOpens_encrypt C haead key (env.nonce 0) env.filler⟩
  · show _ ∈ (dispatch C env n.transport data (P.addr x.other)).effects
    rw [hout, sendRaw, if_pos hn.udpTransport]
    exact List.mem_append_left _ (List.mem_singleton_self _)
  · rw [keyAck_length]
    decide

/-- After the datagram of the other node has reached `x`. -/
def delivered (s : System) (x : Side) (env : Env) (packet : Bytes) : System :=
  advance P s x (s.wire.erase (x.other, packet))
    ((s.node x).step C env (.datagram packet (P.addr x.other)))

theorem heldKey_delivered (s : System) (x : Side) (env : Env) (packet : Bytes) :
    heldKey P (delivered C P s x env packet) x =
      held (dispatch C env (s.node x).transport packet (P.addr x.other)).state
        (P.identity x.other).deviceId := by
  rw [delivered, heldKey_advance_self]
  rfl

/-- A datagram that registers no key leaves the agreement as it is. -/
theorem agree_quiet (s : System) (x : Side) (env : Env) (packet : Bytes) (hs : Invariant C P s)
    (hinstall : installs C (s.node x).transport packet (P.addr x.other) = none) :
    Equal P (delivered C P s x env packet) x ∨
      Repairing C P (delivered C P s x env packet) x ∨
      Repairing C P (delivered C P s x env packet) x.other := by
  have hn := hs.sound x
  have hbound := bound_dispatch C env (s.node x).transport packet (P.addr x.other)
    (P.identity x.other).deviceId
  rw [hinstall] at hbound
  have hheld : heldKey P (delivered C P s x env packet) x = heldKey P s x := by
    rw [heldKey_delivered, held_eq_bound, hbound, ← held_eq_bound, heldKey]
  have hheld' : heldKey P (delivered C P s x env packet) x.other = heldKey P s x.other :=
    heldKey_advance_other P s x _ _
  have hoffered : offeredKey P (delivered C P s x env packet) x = offeredKey P s x := by
    rw [delivered, offeredKey_advance_self]
    exact slotKey_dispatch C env (s.node x).transport packet _ hinstall
  rcases hs.agree x with hsame | hself | hother
  · refine Or.inl fun key key' hkey hkey' => ?_
    rw [hheld] at hkey
    rw [hheld'] at hkey'
    exact hsame key key' hkey hkey'
  · obtain ⟨key, hoffer, hpeer, pkt, sid, payload, hpkt, hparse, hopens⟩ := hself
    refine Or.inr (Or.inl ⟨key, by rw [hoffered, hoffer], by rw [hheld', hpeer], pkt, sid,
      payload, List.mem_append_left _ ((List.mem_erase_of_ne ?_).mpr hpkt), hparse, hopens⟩)
    -- were it the packet delivered now, the slot would have registered its key
    rintro heq
    cases heq
    have hregisters := installs_of_ackOpens C P x (s.node x) hn packet sid payload _ key hparse
      hoffer hopens
    rw [hinstall] at hregisters
    contradiction
  · obtain ⟨key, hoffer, hpeer, pkt, sid, payload, hpkt, hparse, hopens⟩ := hother
    rw [other_other] at hpeer hpkt
    refine Or.inr (Or.inr ⟨key, by rw [delivered, offeredKey_advance_other, hoffer],
      by rw [other_other, hheld, hpeer], pkt, sid, payload, ?_, hparse, hopens⟩)
    rw [other_other]
    refine List.mem_append_left _ ((List.mem_erase_of_ne ?_).mpr hpkt)
    intro heq
    exact other_ne x (Prod.mk.inj heq).1.symm

/-- Of a key that is registered in order, the other node has none, the same one, or the one that
the answer under way will register. -/
theorem agree_installed (haead : C.AeadCorrect) (s : System) (x : Side) (env : Env)
    (packet : Bytes) (hs : Invariant C P s) (key : SessionKey) (bundle : PublicBundle)
    (hinstall : installs C (s.node x).transport packet (P.addr x.other) = some (key, bundle))
    (horder : heldKey P s x.other = none ∨ heldKey P s x.other = some key ∨
      (IsKeyInit packet ∧ offeredKey P s x.other = some key)) :
    Equal P (delivered C P s x env packet) x ∨
      Repairing C P (delivered C P s x env packet) x ∨
      Repairing C P (delivered C P s x env packet) x.other := by
  have hn := hs.sound x
  have hpeer := installs_genuine C P x (s.node x) hn packet _ key bundle hinstall
  have hbound := bound_dispatch C env (s.node x).transport packet (P.addr x.other)
    (P.identity x.other).deviceId
  rw [hinstall] at hbound
  have hheld : heldKey P (delivered C P s x env packet) x = some key := by
    rw [heldKey_delivered, held_eq_bound, hbound, hpeer]
    simp [Parties.bundle, getPublicBundle]
  have hheld' : heldKey P (delivered C P s x env packet) x.other = heldKey P s x.other :=
    heldKey_advance_other P s x _ _
  rcases horder with hnone | hsame | ⟨hinit, hoffer⟩
  · refine Or.inl fun k k' _ hk' => ?_
    rw [hheld', hnone] at hk'
    contradiction
  · refine Or.inl fun k k' hk hk' => ?_
    rw [hheld] at hk
    rw [hheld', hsame] at hk'
    exact Option.some.inj (hk.symm.trans hk')
  · obtain ⟨ack, sid, payload, hack, hparse, hopens⟩ :=
      keyInit_acknowledged C P haead x env (s.node x) hn packet key bundle hinit hinstall
    refine Or.inr (Or.inr ⟨key, by rw [delivered, offeredKey_advance_other, hoffer],
      by rw [other_other, hheld], ack, sid, payload, ?_, hparse, hopens⟩)
    rw [other_other]
    exact List.mem_append_right _ ((mem_posted P x x ack _).mpr ⟨rfl, hack⟩)

theorem deliver_invariant (haead : C.AeadCorrect) (hown : ∀ x, HonestIdentity C (P.identity x))
    (s : System) (sender : Side) (env : Env) (packet : Bytes) (hs : Invariant C P s)
    (horderly : Orderly C P s (.deliver sender env packet)) :
    Invariant C P (step C P s (.deliver sender env packet)) := by
  unfold step
  dsimp only
  split
  case isFalse => exact hs
  case isTrue hmem =>
    -- `x` is the receiver
    obtain ⟨x, rfl⟩ : ∃ x : Side, sender = x.other := ⟨sender.other, (other_other sender).symm⟩
    simp only [other_other] at hmem ⊢
    obtain ⟨hsound, hsent⟩ := datagram_sound C P x (hown x) env (s.node x) (hs.sound x) packet
      (hs.wire x.other packet hmem)
    refine advance_sound C P s x _ _ hs hsound (fun _ h => List.mem_of_mem_erase h) hsent ?_
    cases hinstall : installs C (s.node x).transport packet (P.addr x.other) with
    | none => exact agree_quiet C P s x env packet hs hinstall
    | some installed =>
      obtain ⟨key, bundle⟩ := installed
      exact agree_installed C P haead s x env packet hs key bundle hinstall
        (horderly hmem key bundle (by rw [other_other]; exact hinstall))

theorem step_invariant (haead : C.AeadCorrect) (hown : ∀ x, HonestIdentity C (P.identity x))
    (s : System) (l : Label) (hs : Invariant C P s) (horderly : Orderly C P s l) :
    Invariant C P (step C P s l) := by
  cases l with
  | act x env op => exact act_invariant C P hown s x env op hs horderly
  | deliver sender env packet =>
    exact deliver_invariant C P haead hown s sender env packet hs horderly

theorem initial_invariant (s : System) (h : Initial P s) : Invariant C P s := by
  obtain ⟨hstarted, hwire⟩ := h
  refine ⟨?_, ?_, ?_⟩
  · intro x
    obtain ⟨hfresh, hcalls⟩ := hstarted x
    refine ⟨started_wellFormed _ _ (hstarted x), hfresh.identity, hfresh.udpTransport, ?_, ?_, ?_⟩
    · intro i h hget
      simp [hfresh.handshakes] at hget
    · intro i call hcall
      simp [hcalls] at hcall
    · intro msgId inf hinf
      simp [hfresh.inFlight] at hinf
  · intro x packet hmem
    simp [hwire] at hmem
  · intro x
    refine Or.inl fun key key' hkey _ => ?_
    simp [heldKey, held, (hstarted x).1.sessions] at hkey

/-- In every orderly run of two honest nodes, whenever no handshake packet is on its
way the sessions they hold for each other have the same key. -/
theorem orderly_keys_agree (haead : C.AeadCorrect)
    (hown : ∀ x, HonestIdentity C (P.identity x)) (s : System) (hs : Initial P s)
    (labels : List Label) (horderly : Runs.Always (step C P) (Orderly C P) s labels)
    (hsettled : Settled (Runs.run (step C P) s labels)) (sessionA sessionB : SessionInfo)
    (hA : ((Runs.run (step C P) s labels).node .a).transport.sessions.get?
      (P.identity .b).deviceId = some sessionA)
    (hB : ((Runs.run (step C P) s labels).node .b).transport.sessions.get?
      (P.identity .a).deviceId = some sessionB) :
    sessionA.sessionKey = sessionB.sessionKey := by
  have hinv := Runs.invariant (fun s l hs hg => step_invariant C P haead hown s l hs hg) s labels
    (initial_invariant C P s hs) horderly
  have hquiet : ∀ x, ¬ Repairing C P (Runs.run (step C P) s labels) x := by
    rintro x ⟨key, _, _, packet, sid, payload, hmem, hparse, _⟩
    have hdata := hsettled _ packet _ hmem hparse
    contradiction
  rcases hinv.agree .a with hsame | hself | hother
  · exact hsame _ _ (by rw [heldKey, held]; exact congrArg (Option.map _) hA)
      (by rw [heldKey, held]; exact congrArg (Option.map _) hB)
  · exact absurd hself (hquiet _)
  · exact absurd hother (hquiet _)

end Agreement

section Stub

theorem orderly_deliver_of_none (s : System) (sender : Side) (env : Env) (packet : Bytes)
    (h : heldKey P s sender = none) : Orderly C P s (.deliver sender env packet) :=
  fun _ _ _ _ => Or.inl h

theorem orderly_act_of_none (s : System) (x : Side) (env : Env) (op : Op)
    (h : heldKey P s x.other = none) : Orderly C P s (.act x env op) := by
  intro _ key _ hkey
  rw [h] at hkey
  contradiction

theorem heldKey_of_owned (s : System) (x : Side) (t₀ : MeshTransport)
    (h : Owned P x t₀ (s.node x)) :
    heldKey P s x = none := by
  simp [heldKey, held, h.sessions]

theorem heldKey_of_bound (s : System) (x : Side) (addr : Addr) (key : SessionKey)
    (bundle : PublicBundle)
    (h : bound (s.node x).transport (P.identity x.other).deviceId = some (addr, key, bundle)) :
    heldKey P s x = some key := by
  rw [heldKey, held_eq_bound, h]
  rfl

/-- An acknowledgement can only register the key the slot holds. -/
theorem installs_keyAck (t : MeshTransport) (data sid payload : Bytes) (addr : Addr)
    (key : SessionKey) (bundle : PublicBundle)
    (hparse : parsePacket data = .ok ⟨.keyAck, sid, payload⟩)
    (h : installs C t data addr = some (key, bundle)) : slotKey t addr = some key := by
  simp only [installs, hparse, keyAckInstalls] at h
  split at h
  · contradiction
  · rename_i key' hkey
    split at h
    · obtain ⟨b, _, heq⟩ := Option.map_eq_some_iff.mp h
      cases heq
      exact hkey
    · contradiction

def stubParties : Parties where
  identity
    | .a => alpha
    | .b => bravo
  addr
    | .a => ("10.0.0.1", 7000)
    | .b => ("10.0.0.2", 7000)

theorem honest_stubParties (x : Side) : HonestIdentity stub (stubParties.identity x) := by
  cases x
  · exact honest_alpha
  · exact honest_bravo

def stubResult (x : Side) (env : Env) : KEMEncapResult :=
  ⟨(stub.mlkemEncap (stubParties.bundle stub x.other).kemPub env.seed).1, env.seed⟩

theorem stub_offer (x : Side) (env : Env) :
    Offer stub stubParties x env (stubResult x env) ⟨env.seed⟩ where
  encap := stub_kemEncapsulate _ _ _ _
  decap := by
    rw [stub_kemDecapsulate, stubResult]
    exact congrArg (fun secret => Except.ok (SessionKey.mk secret))
      (stub_kemCorrect (stubParties.identity x.other).kemKeypair env.seed)

/-- Two started nodes of the stub suite. -/
theorem exists_initial : ∃ na nb, Started alpha na ∧ Started bravo nb ∧
    na.transport.connectedCbs = [] ∧ nb.transport.connectedCbs = [] := by
  obtain ⟨na, hna, hcbsA⟩ := exists_started_of alpha (by decide)
  obtain ⟨nb, hnb, hcbsB⟩ := exists_started_of bravo (by decide)
  exact ⟨na, nb, hna, hnb, hcbsA, hcbsB⟩

theorem initial_pair (na nb : Node) (hna : Started alpha na) (hnb : Started bravo nb) :
    Initial stubParties (pair na nb []) := by
  refine ⟨fun x => ?_, rfl⟩
  cases x
  · exact hna
  · exact hnb

theorem settled_pair (na nb : Node) : Settled (pair na nb []) := by
  intro x packet p hmem
  contradiction

/-- One undisturbed connect(): an orderly run that leaves both nodes with a session. -/
theorem orderly_keys_agree_exchange : ∃ s labels sessionA sessionB,
    Initial stubParties s ∧ Settled (Runs.run (step stub stubParties) s labels) ∧
    ((Runs.run (step stub stubParties) s labels).node .a).transport.sessions.get? "bravo" =
      some sessionA ∧
    ((Runs.run (step stub stubParties) s labels).node .b).transport.sessions.get? "alpha" =
      some sessionB ∧
    sessionA.sessionKey = sessionB.sessionKey := by
  obtain ⟨na, nb, hna, hnb, hcbs⟩ := exists_initial
  obtain ⟨wireA, hwireA, _⟩ := announced_wire stub alpha honest_alpha
  obtain ⟨wireB, hwireB, _⟩ := announced_wire stub bravo honest_bravo
  obtain ⟨a₁, a₂, a₃, a₄, b₁, b₂, ⟨ha₁, ha₃⟩, ⟨hb, hb₁⟩, h₁, h₂, h₃, h₄, h₅, h₆, hslot,
    ⟨⟨_, hboundB⟩, _⟩, ⟨_, hboundA⟩, _⟩ := exchange_steps (P := stubParties) stub_aeadCorrect
      honest_stubParties hna hnb hcbs (stub_offer .a stillEnv) hwireA hwireB
  let labels : List Label := [.act .a stillEnv .connect,
    .deliver .a stillEnv (frame .handshake na.transport.senderId wireA zeroMac),
    .deliver .b stillEnv (frame .handshakeResp nb.transport.senderId wireB zeroMac),
    .act .a stillEnv (.resume na.calls.length),
    .deliver .a stillEnv (keyInitPacket na.transport.senderId (stubResult .a stillEnv)),
    .deliver .b stillEnv (keyAckPacket stub nb.transport.senderId stillEnv ⟨stillEnv.seed⟩)]
  have hrun : Runs.run (step stub stubParties) (pair na nb []) labels = pair a₄ b₂ [] := by
    rw [Runs.run_cons, h₁, Runs.run_cons, h₂, Runs.run_cons, h₃, Runs.run_cons, h₄, Runs.run_cons,
      h₅, Runs.run_cons, h₆, Runs.run_nil]
  have horderly : Runs.Always (step stub stubParties) (Orderly stub stubParties) (pair na nb [])
      labels := by
    refine ⟨orderly_act_of_none stub _ _ .a _ _ (heldKey_of_owned _ _ .b _ hb), ?_⟩
    rw [h₁]
    refine ⟨orderly_deliver_of_none stub _ _ _ _ _ (heldKey_of_owned _ _ .a _ ha₁), ?_⟩
    rw [h₂]
    refine ⟨orderly_deliver_of_none stub _ _ _ _ _ (heldKey_of_owned _ _ .b _ hb₁), ?_⟩
    rw [h₃]
    refine ⟨orderly_act_of_none stub _ _ .a _ _ (heldKey_of_owned _ _ .b _ hb₁), ?_⟩
    rw [h₄]
    refine ⟨orderly_deliver_of_none stub _ _ _ _ _ (heldKey_of_owned _ _ .a _ ha₃), ?_⟩
    rw [h₅]
    refine ⟨?_, trivial⟩
    intro _ key bundle hinstall
    have hparse := parsePacket_unkeyed .keyAck nb.transport.senderId _ (Nat.lt_of_le_of_lt (Nat.le_of_eq
      (keyAck_length stub ⟨stillEnv.seed⟩ (stillEnv.nonce 0) stillEnv.filler)) (by decide))
    have hkey := installs_keyAck stub _ _ _ _ _ key bundle hparse hinstall
    have hsame : some (SessionKey.mk stillEnv.seed) = some key := hslot.symm.trans hkey
    rw [← hsame]
    exact Or.inr (Or.inl (heldKey_of_bound stubParties _ .b _ _ _ hboundB))
  have hinitial := initial_pair na nb hna hnb
  have hsettled : Settled (Runs.run (step stub stubParties) (pair na nb []) labels) := by
    rw [hrun]
    exact settled_pair a₄ b₂
  obtain ⟨sessionA, hA, _⟩ := Option.map_eq_some_iff.mp hboundA
  obtain ⟨sessionB, hB, _⟩ := Option.map_eq_some_iff.mp hboundB
  have hA' : ((Runs.run (step stub stubParties) (pair na nb []) labels).node .a).transport.sessions.get?
      (stubParties.identity .b).deviceId = some sessionA := by
    rw [hrun]
    exact hA
  have hB' : ((Runs.run (step stub stubParties) (pair na nb []) labels).node .b).transport.sessions.get?
      (stubParties.identity .a).deviceId = some sessionB := by
    rw [hrun]
    exact hB
  exact ⟨pair na nb [], labels, sessionA, sessionB, hinitial, hsettled, hA', hB',
    orderly_keys_agree stub stubParties stub_aeadCorrect honest_stubParties _ hinitial labels
      horderly hsettled sessionA sessionB hA' hB'⟩

/-- Two connects that cross leave the nodes with different keys and nothing on the way. -/
theorem crossed_connects_disagree : ¬ ∀ (P : Parties) (s : System) (labels : List Label)
    (sessionA sessionB : SessionInfo),
    (∀ x, HonestIdentity stub (P.identity x)) → Initial P s →
    Settled (Runs.run (step stub P) s labels) →
    ((Runs.run (step stub P) s labels).node .a).transport.sessions.get?
      (P.identity .b).deviceId = some sessionA →
    ((Runs.run (step stub P) s labels).node .b).transport.sessions.get?
      (P.identity .a).deviceId = some sessionB →
    sessionA.sessionKey = sessionB.sessionKey := by
  intro hclaim
  obtain ⟨na, nb, hna, hnb, hcbs⟩ := exists_initial
  let env' : Env := { stillEnv with seed := List.Vector.replicate 32 1 }
  obtain ⟨labels, na', nb', hrun, hboundA, hboundB⟩ := crossed_run (P := stubParties)
    honest_stubParties hna hnb hcbs (stub_offer .a stillEnv) (stub_offer .b env')
  obtain ⟨sessionA, hA, hkeyA⟩ := Option.map_eq_some_iff.mp hboundA
  obtain ⟨sessionB, hB, hkeyB⟩ := Option.map_eq_some_iff.mp hboundB
  have hsame := hclaim stubParties (pair na nb []) labels sessionA sessionB honest_stubParties
    (initial_pair na nb hna hnb) (by rw [hrun]; exact settled_pair na' nb') (by rw [hrun]; exact hA)
    (by rw [hrun]; exact hB)
  simp only [Prod.mk.injEq] at hkeyA hkeyB
  rw [hkeyA.2.1, hkeyB.2.1] at hsame
  exact absurd (congrArg SessionKey.raw hsame) (by decide)

end Stub

end Mesim.KeyAgreement
