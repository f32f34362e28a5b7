import Mesim.Honest

/-!
What connect() registers.
A call of connect() encapsulates to the bundle it was given, but the KEY_ACK
handler registers the bundle the slot holds when the acknowledgement arrives.
The call finds its own session when it returns exactly when the accepted
KEY_ACK and KEY_INIT packets left that session in place. The node may process
any events in between, not only those of this call.
-/
namespace Mesim.ConnectBinding

open Octets TextCodec Crypto Identity Packet Transport Operations Dispatch Nodes Honest
open MeshTransport Outcome

def SameKeys (b bundle : PublicBundle) : Prop :=
  b.verifyKey = bundle.verifyKey ∧ b.encryptPub = bundle.encryptPub ∧ b.kemPub = bundle.kemPub

/-- The session a caller of connect(addr, bundle) asks for, under the key it encapsulated. -/
def BoundTo (t : MeshTransport) (addr : Addr) (bundle : PublicBundle) (key : SessionKey) : Prop :=
  ∃ s, t.sessions.get? bundle.deviceId = some s ∧ s.peerAddr = addr ∧
    SameKeys s.peerBundle bundle ∧ s.sessionKey = key

def phaseOf (n : Node) (i : ℕ) : Option ConnectPhase := (n.calls[i]?).map ConnectCall.phase

theorem boundTo_iff (t : MeshTransport) (addr : Addr) (bundle : PublicBundle) (key : SessionKey) :
    BoundTo t addr bundle key ↔
      ∃ b, bound t bundle.deviceId = some (addr, key, b) ∧ SameKeys b bundle := by
  unfold BoundTo bound
  constructor
  · rintro ⟨s, hs, haddr, hkeys, hkey⟩
    exact ⟨s.peerBundle, by rw [hs, ← haddr, ← hkey]; rfl, hkeys⟩
  · rintro ⟨b, hbound, hkeys⟩
    obtain ⟨s, hs, heq⟩ := Option.map_eq_some_iff.mp hbound
    simp only [Prod.mk.injEq] at heq
    exact ⟨s, hs, heq.1, by rw [heq.2.2]; exact hkeys, heq.2.1⟩

theorem boundTo_congr (t t' : MeshTransport) (addr : Addr) (bundle : PublicBundle)
    (key : SessionKey) (h : ∀ peerId, bound t' peerId = bound t peerId) :
    BoundTo t' addr bundle key ↔ BoundTo t addr bundle key := by
  rw [boundTo_iff, boundTo_iff, h]

variable (C : Suite)

/-- The event does not spoil the session of call `i`. Only a datagram that installs
a session can, and only when it acknowledges the call or arrives after that: one
that names the caller's bundle must install exactly the session asked for, and
one that names another device must not be what acknowledges the call, unless the
session asked for is there already. -/
def Binds (i : ℕ) (addr : Addr) (bundle : PublicBundle) (n : Node) (e : Env × Event) : Prop :=
  ∀ data sender call key newKey installed, e.2 = .datagram data sender →
    n.calls[i]? = some call → call.phase = .awaitAck key →
    installs C n.transport data sender = some (newKey, installed) →
    (Acked n call ∨ Acks C n.transport data sender call.handshake) →
    if installed.deviceId = bundle.deviceId then
      sender = addr ∧ newKey = key ∧ SameKeys installed bundle
    else Acked n call ∨ BoundTo n.transport addr bundle key

/-- What holds of call `i` in every run: it is there, and nothing acknowledges it
before it has encapsulated. -/
structure Tracks (i : ℕ) (n : Node) : Prop where
  wellFormed : WellFormed n
  present : i < n.calls.length
  silent : ∀ call, n.calls[i]? = some call → call.phase = .awaitResp → ¬ Acked n call

/-- Once the call is acknowledged, the session it asked for is there. -/
def Settled (i : ℕ) (addr : Addr) (bundle : PublicBundle) (n : Node) : Prop :=
  ∀ call key, n.calls[i]? = some call → call.phase = .awaitAck key → Acked n call →
    BoundTo n.transport addr bundle key

/-- A step that changes no binding, acknowledges nothing, and moves call `i` only forward. -/
structure Quiet (i : ℕ) (n n' : Node) : Prop where
  bound : ∀ peerId, bound n'.transport peerId = bound n.transport peerId
  present : n.calls.length ≤ n'.calls.length
  call : ∀ call', i < n.calls.length → n'.calls[i]? = some call' → Waiting call' →
    ∃ call, n.calls[i]? = some call ∧
      (call'.phase = call.phase ∨ (call.phase = .awaitResp ∧ call'.phase ≠ .awaitResp)) ∧
      (Acked n' call' → Acked n call)

theorem Quiet.tracks {i : ℕ} {n n' : Node} (h : Quiet i n n') (hn : Tracks i n)
    (hn' : WellFormed n') : Tracks i n' := by
  refine ⟨hn', Nat.lt_of_lt_of_le hn.present h.present, ?_⟩
  intro call' hcall' hphase' hacked
  obtain ⟨call, hcall, hphase, himp⟩ := h.call call' hn.present hcall' (Or.inl hphase')
  rcases hphase with heq | ⟨_, hne⟩
  · exact hn.silent call hcall (heq ▸ hphase') (himp hacked)
  · exact hne hphase'

theorem Quiet.settled {i : ℕ} {n n' : Node} (h : Quiet i n n') (hn : Tracks i n) (addr : Addr)
    (bundle : PublicBundle) (hsettled : Settled i addr bundle n) : Settled i addr bundle n' := by
  intro call' key hcall' hphase' hacked
  obtain ⟨call, hcall, hphase, himp⟩ := h.call call' hn.present hcall' (Or.inr ⟨key, hphase'⟩)
  rw [boundTo_congr _ _ addr bundle key h.bound]
  rcases hphase with heq | ⟨hresp, _⟩
  · exact hsettled call key hcall (heq ▸ hphase') (himp hacked)
  · exact absurd (himp hacked) (hn.silent call hcall hresp)

theorem quiet_of_sameHandshakes (i : ℕ) (n : Node) (t : MeshTransport)
    (h : SameHandshakes n.transport t) : Quiet i n { n with transport := t } where
  bound := h.bound
  present := le_rfl
  call call' _ hcall' _ := ⟨call', hcall', Or.inl rfl, by
    rintro ⟨x, hx, hack⟩
    exact ⟨x, by rw [← h.handshakes]; exact hx, hack⟩⟩

/-- Ending call `j`, or moving it on, while the ack events stay as they are. -/
theorem quiet_setPhase (i j : ℕ) (n : Node) (t : MeshTransport) (call : ConnectCall)
    (phase : ConnectPhase) (hcall : n.calls[j]? = some call)
    (hforward : Waiting { call with phase := phase } →
      call.phase = .awaitResp ∧ phase ≠ .awaitResp)
    (hbound : ∀ peerId, Dispatch.bound t peerId = Dispatch.bound n.transport peerId)
    (hacks : ∀ (r : ℕ) x', t.handshakes[r]? = some x' → x'.ackEvent = true →
      ∃ x, n.transport.handshakes[r]? = some x ∧ x.ackEvent = true) :
    Quiet i n (Node.setPhase { n with transport := t } j phase) where
  bound := hbound
  present := by
    simp only [Node.setPhase, List.length_modify]
    exact le_rfl
  call call' _ hcall' hwaiting' := by
    obtain ⟨old, hold, rfl⟩ := calls_setPhase _ j i phase call' hcall'
    refine ⟨old, hold, ?_, ?_⟩
    · by_cases hji : j = i
      · subst hji
        rw [hcall] at hold
        cases hold
        simp only [if_true] at hwaiting' ⊢
        exact Or.inr (hforward hwaiting')
      · simp [hji]
    · rintro ⟨x', hx', hack⟩
      have hsame : (if j = i then { old with phase := phase } else old).handshake =
          old.handshake := by
        split <;> rfl
      rw [hsame] at hx'
      exact hacks _ x' hx' hack

theorem quiet_connect (i : ℕ) (n : Node) (hn : WellFormed n) (addr : Addr)
    (bundle : PublicBundle) : Quiet i n (n.connect C addr bundle).1 := by
  unfold Node.connect
  have hbegun := connectBegin_begun C n.transport addr bundle
  generalize connectBegin C n.transport addr bundle = out at hbegun
  have hold : ∀ (t : MeshTransport) (c call' : ConnectCall), i < n.calls.length →
      (n.calls ++ [c])[i]? = some call' → Waiting call' →
      (∀ (r : ℕ), r < n.transport.handshakes.length →
        t.handshakes[r]? = n.transport.handshakes[r]?) →
      ∃ call, n.calls[i]? = some call ∧
        (call'.phase = call.phase ∨ (call.phase = .awaitResp ∧ call'.phase ≠ .awaitResp)) ∧
        (Acked ⟨t, n.calls ++ [c]⟩ call' → Acked n call) := by
    intro t c call' hlt hcall' hwaiting hsame
    rw [List.getElem?_append_left hlt] at hcall'
    refine ⟨call', hcall', Or.inl rfl, ?_⟩
    rintro ⟨x, hx, hack⟩
    have hx' := hsame call'.handshake ((hn.callKey i call' hcall').lt hwaiting)
    exact ⟨x, by rw [← hx']; exact hx, hack⟩
  have hopened : ∀ (h : PendingHandshake) (r : ℕ), r < n.transport.handshakes.length →
      (n.transport.openSlot addr h).handshakes[r]? = n.transport.handshakes[r]? := by
    intro h r hr
    exact List.getElem?_append_left hr
  cases hbegun with
  | rejected e _ =>
    exact ⟨fun _ => rfl, by simp, fun call' hlt hc hw =>
      hold n.transport _ call' hlt hc hw (fun _ _ => rfl)⟩
  | unsent e _ =>
    exact ⟨fun _ => rfl, by simp, fun call' hlt hc hw => hold _ _ call' hlt hc hw (hopened _)⟩
  | sent wire _ _ =>
    exact ⟨fun _ => rfl, by simp, fun call' hlt hc hw => hold _ _ call' hlt hc hw (hopened _)⟩

theorem quiet_resume (i : ℕ) (env : Env) (n : Node) (j : ℕ) :
    Quiet i n (n.resume C env j).1 := by
  have hresumed := resume_resumed C env n j
  generalize n.resume C env j = out at hresumed
  cases hresumed with
  | idle => exact quiet_of_sameHandshakes i n n.transport (.refl _)
  | failed call e hcall hphase =>
    refine quiet_setPhase i j n n.transport call _ hcall ?_ (fun _ => rfl)
      (fun _ x hx hack => ⟨x, hx, hack⟩)
    rintro (h | ⟨key, h⟩) <;> cases h
  | encapsulated call h result key hcall hphase hget _ _ =>
    refine quiet_setPhase i j n _ call _ hcall (fun _ => ⟨hphase, by simp⟩) (fun _ => rfl) ?_
    intro r x' hx' hack
    change (n.transport.handshakes.modify _ _)[r]? = some x' at hx'
    rw [List.getElem?_modify] at hx'
    obtain ⟨x, hx, rfl⟩ := Option.map_eq_some_iff.mp hx'
    refine ⟨x, hx, ?_⟩
    split at hack <;> exact hack
  | returned call h key hcall hphase _ _ =>
    refine quiet_setPhase i j n _ call _ hcall ?_ (fun _ => rfl)
      (fun _ x hx hack => ⟨x, hx, hack⟩)
    rintro (h | ⟨key, h⟩) <;> cases h

theorem quiet_timeout (i : ℕ) (n : Node) (j : ℕ) : Quiet i n (n.timeout j) := by
  rcases timeout_eq n j with heq | ⟨call, hcall, _, heq⟩
  · rw [heq]
    exact quiet_of_sameHandshakes i n n.transport (.refl _)
  · rw [heq]
    refine quiet_setPhase i j n _ call _ hcall ?_ (fun _ => rfl)
      (fun _ x hx hack => ⟨x, hx, hack⟩)
    rintro (h | ⟨key, h⟩) <;> cases h

section Datagram

variable (env : Env) (n : Node) (data : Bytes) (sender : Addr)

theorem acked_datagram (call : ConnectCall)
    (hget : ∃ h, n.transport.handshakes[call.handshake]? = some h) :
    Acked (n.step C env (.datagram data sender)).1 call ↔
      Acked n call ∨ Acks C n.transport data sender call.handshake := by
  obtain ⟨h, hget⟩ := hget
  obtain ⟨h', hget', _, hiff⟩ :=
    dispatch_handshake_get C env n.transport data sender call.handshake h hget
  show (∃ x, (dispatch C env n.transport data sender).state.handshakes[call.handshake]? =
    some x ∧ x.ackEvent = true) ↔ _
  constructor
  · rintro ⟨x, hx, hack⟩
    rw [hget'] at hx
    cases hx
    rcases hiff.mp hack with hold | hnew
    · exact Or.inl ⟨h, hget, hold⟩
    · exact Or.inr hnew
  · rintro (⟨x, hx, hack⟩ | hacks)
    · rw [hget] at hx
      cases hx
      exact ⟨h', hget', hiff.mpr (Or.inl hack)⟩
    · exact ⟨h', hget', hiff.mpr (Or.inr hacks)⟩

/-- An object whose key is not set yet acknowledges nothing. -/
theorem acks_key (h : PendingHandshake) (ref : ℕ) (hget : n.transport.handshakes[ref]? = some h)
    (hacks : Acks C n.transport data sender ref) : h.ourSessionKey ≠ none := by
  obtain ⟨href, sid, payload, _, hinstall⟩ := hacks
  intro hnone
  have hslot : slotKey n.transport sender = none := by
    simp only [slotKey, MeshTransport.slot, href, Option.bind_some, hget, hnone]
  rw [keyAckInstalls, hslot] at hinstall
  contradiction

theorem acks_installs (t : MeshTransport) (ref : ℕ) (hacks : Acks C t data sender ref) :
    ∃ key bundle, installs C t data sender = some (key, bundle) := by
  obtain ⟨_, sid, payload, hparse, hinstall⟩ := hacks
  obtain ⟨⟨key, bundle⟩, heq⟩ := Option.isSome_iff_exists.mp hinstall
  exact ⟨key, bundle, by simp only [installs, hparse, heq]⟩

theorem tracks_datagram (i : ℕ) (hn : Tracks i n)
    (hn' : WellFormed (n.step C env (.datagram data sender)).1) :
    Tracks i (n.step C env (.datagram data sender)).1 := by
  refine ⟨hn', hn.present, ?_⟩
  intro call hcall hphase hacked
  have hkey := hn.wellFormed.callKey i call hcall
  rw [CallKey, hphase] at hkey
  obtain ⟨h, hget, hnone⟩ := hkey
  rcases (acked_datagram C env n data sender call ⟨h, hget⟩).mp hacked with hold | hacks
  · exact hn.silent call hcall hphase hold
  · exact acks_key C n data sender h _ hget hacks hnone

theorem boundTo_datagram (addr : Addr) (bundle : PublicBundle) (key newKey : SessionKey)
    (installed : PublicBundle)
    (hinstall : installs C n.transport data sender = some (newKey, installed)) :
    BoundTo (n.step C env (.datagram data sender)).1.transport addr bundle key ↔
      if installed.deviceId = bundle.deviceId then
        sender = addr ∧ newKey = key ∧ SameKeys installed bundle
      else BoundTo n.transport addr bundle key := by
  have hbound := bound_dispatch C env n.transport data sender bundle.deviceId
  rw [hinstall] at hbound
  rw [boundTo_iff, boundTo_iff]
  show (∃ b, bound (dispatch C env n.transport data sender).state _ = _ ∧ _) ↔ _
  rw [hbound]
  by_cases hname : installed.deviceId = bundle.deviceId
  · simp only [hname, if_true]
    constructor
    · rintro ⟨b, heq, hkeys⟩
      cases heq
      exact ⟨rfl, rfl, hkeys⟩
    · rintro ⟨rfl, rfl, hkeys⟩
      exact ⟨installed, rfl, hkeys⟩
  · simp only [hname, if_false]

/-- One datagram keeps an acknowledged call's session exactly when it binds. -/
theorem settled_datagram_iff (i : ℕ) (addr : Addr) (bundle : PublicBundle) (hn : Tracks i n)
    (hsettled : Settled i addr bundle n) :
    Settled i addr bundle (n.step C env (.datagram data sender)).1 ↔
      Binds C i addr bundle n (env, .datagram data sender) := by
  have hget : ∀ call key, n.calls[i]? = some call → call.phase = .awaitAck key →
      ∃ h, n.transport.handshakes[call.handshake]? = some h := by
    intro call key hcall hphase
    have hkey := hn.wellFormed.callKey i call hcall
    rw [CallKey, hphase] at hkey
    obtain ⟨h, hget, _⟩ := hkey
    exact ⟨h, hget⟩
  constructor
  · intro hafter data' sender' call key newKey installed hevent hcall hphase hinstall hacks
    cases hevent
    have hacked := (acked_datagram C env n data sender call (hget call key hcall hphase)).mpr hacks
    have hboundTo := hafter call key hcall hphase hacked
    rw [boundTo_datagram C env n data sender addr bundle key newKey installed hinstall] at hboundTo
    split
    · rename_i hname
      rwa [if_pos hname] at hboundTo
    · rename_i hname
      rw [if_neg hname] at hboundTo
      exact Or.inr hboundTo
  · intro hbinds call key hcall hphase hacked
    have hacks := (acked_datagram C env n data sender call (hget call key hcall hphase)).mp hacked
    cases hinstall : installs C n.transport data sender with
    | none =>
      have hold : Acked n call := by
        rcases hacks with hold | hacks
        · exact hold
        · obtain ⟨newKey, installed, heq⟩ := acks_installs C data sender n.transport _ hacks
          rw [hinstall] at heq
          contradiction
      refine (boundTo_congr _ _ addr bundle key ?_).mpr (hsettled call key hcall hphase hold)
      intro peerId
      have hbound := bound_dispatch C env n.transport data sender peerId
      rw [hinstall] at hbound
      exact hbound
    | some pair =>
      obtain ⟨newKey, installed⟩ := pair
      rw [boundTo_datagram C env n data sender addr bundle key newKey installed hinstall]
      have hcond := hbinds data sender call key newKey installed rfl hcall hphase hinstall hacks
      split
      · rename_i hname
        rwa [if_pos hname] at hcond
      · rename_i hname
        rw [if_neg hname] at hcond
        exact hcond.elim (hsettled call key hcall hphase) id

end Datagram

theorem quiet_or_datagram (i : ℕ) (n : Node) (hn : WellFormed n) (e : Env × Event) :
    (∃ data sender, e.2 = .datagram data sender) ∨
      ((∀ data sender, e.2 ≠ .datagram data sender) ∧ Quiet i n (nodeStep C n e)) := by
  obtain ⟨env, event⟩ := e
  cases event with
  | datagram data sender => exact Or.inl ⟨data, sender, rfl⟩
  | connect a b => exact Or.inr ⟨by simp, quiet_connect C i n hn a b⟩
  | resume j => exact Or.inr ⟨by simp, quiet_resume C i env n j⟩
  | timeout j => exact Or.inr ⟨by simp, quiet_timeout i n j⟩
  | send peerId message =>
    exact Or.inr ⟨by simp, quiet_of_sameHandshakes i n _ (send_same C env n.transport _ _)⟩
  | retry =>
    exact Or.inr ⟨by simp, quiet_of_sameHandshakes i n _ (retrySweep_same env n.transport)⟩

theorem tracks_step (i : ℕ) (n : Node) (e : Env × Event) (hn : Tracks i n) :
    Tracks i (nodeStep C n e) := by
  have hn' := nodeStep_wellFormed C n e hn.wellFormed
  rcases quiet_or_datagram C i n hn.wellFormed e with ⟨data, sender, hevent⟩ | ⟨_, hquiet⟩
  · obtain ⟨env, event⟩ := e
    cases hevent
    exact tracks_datagram C env n data sender i hn hn'
  · exact hquiet.tracks hn hn'

theorem settled_step_iff (i : ℕ) (addr : Addr) (bundle : PublicBundle) (n : Node)
    (e : Env × Event) (h : Tracks i n ∧ Settled i addr bundle n) :
    (Tracks i (nodeStep C n e) ∧ Settled i addr bundle (nodeStep C n e)) ↔
      Binds C i addr bundle n e := by
  obtain ⟨hn, hsettled⟩ := h
  have hn' := tracks_step C i n e hn
  rcases quiet_or_datagram C i n hn.wellFormed e with ⟨data, sender, hevent⟩ | ⟨hne, hquiet⟩
  · obtain ⟨env, event⟩ := e
    cases hevent
    have hiff := settled_datagram_iff C env n data sender i addr bundle hn hsettled
    exact ⟨fun h => hiff.mp h.2, fun h => ⟨hn', hiff.mpr h⟩⟩
  · refine iff_of_true ⟨hn', hquiet.settled hn addr bundle hsettled⟩ ?_
    intro data sender call key newKey installed hevent
    exact absurd hevent (hne data sender)

/-- connect() starts a call that is not acknowledged. -/
theorem tracks_connect (env : Env) (n : Node) (hn : WellFormed n) (addr : Addr)
    (bundle : PublicBundle) :
    Tracks n.calls.length (nodeStep C n (env, .connect addr bundle)) ∧
      Settled n.calls.length addr bundle (nodeStep C n (env, .connect addr bundle)) := by
  have hn' := nodeStep_wellFormed C n (env, .connect addr bundle) hn
  show Tracks _ (n.connect C addr bundle).1 ∧ Settled _ _ _ (n.connect C addr bundle).1
  change WellFormed (n.connect C addr bundle).1 at hn'
  unfold Node.connect at hn' ⊢
  have hbegun := connectBegin_begun C n.transport addr bundle
  generalize connectBegin C n.transport addr bundle = out at hbegun hn'
  have hpresent : ∀ c : ConnectCall, n.calls.length < (n.calls ++ [c]).length := by
    intro c
    simp
  cases hbegun with
  | rejected e _ | unsent e _ =>
    refine ⟨⟨hn', hpresent _, ?_⟩, ?_⟩
    · intro call hcall hphase
      rw [List.getElem?_concat_length] at hcall
      cases hcall
      cases hphase
    · intro call key hcall hphase
      rw [List.getElem?_concat_length] at hcall
      cases hcall
      cases hphase
  | sent wire _ _ =>
    refine ⟨⟨hn', hpresent _, ?_⟩, ?_⟩
    · intro call hcall hphase
      rw [List.getElem?_concat_length] at hcall
      cases hcall
      rintro ⟨x, hx, hack⟩
      change (n.transport.handshakes ++ _)[n.transport.handshakes.length]? = some x at hx
      rw [List.getElem?_concat_length] at hx
      cases hx
      contradiction
    · intro call key hcall hphase
      rw [List.getElem?_concat_length] at hcall
      cases hcall
      cases hphase

/-- Resuming a call that waits for its acknowledgement returns True when it has it,
and changes no session either way. -/
theorem resume_awaitAck (env : Env) (n : Node) (hn : WellFormed n) (i : ℕ) (call : ConnectCall)
    (key : SessionKey) (hcall : n.calls[i]? = some call) (hphase : call.phase = .awaitAck key) :
    (phaseOf (nodeStep C n (env, .resume i)) i = some (.returned true) ↔ Acked n call) ∧
      (nodeStep C n (env, .resume i)).transport.sessions = n.transport.sessions := by
  have hkey := hn.callKey i call hcall
  rw [CallKey, hphase] at hkey
  obtain ⟨h, hget, _⟩ := hkey
  have hstep : nodeStep C n (env, .resume i) =
      if h.ackEvent then
        Node.setPhase { n with transport := n.transport.closeSlot call.peerAddr } i
          (.returned true)
      else n := by
    simp only [nodeStep, Node.step, Node.resume, hcall, hphase, hget]
    split <;> rfl
  have hacked : Acked n call ↔ h.ackEvent = true := by
    constructor
    · rintro ⟨x, hx, hack⟩
      rw [hget] at hx
      cases hx
      exact hack
    · exact fun hack => ⟨h, hget, hack⟩
  rw [hstep, hacked]
  by_cases hack : h.ackEvent = true
  · rw [if_pos hack]
    refine ⟨iff_of_true ?_ hack, rfl⟩
    simp [phaseOf, Node.setPhase, hcall]
  · rw [if_neg hack]
    refine ⟨iff_of_false ?_ hack, rfl⟩
    simp [phaseOf, hcall, hphase]

/-- At every point of the run where call `i` can return True, it finds its session. -/
def FindsSession (i : ℕ) (addr : Addr) (bundle : PublicBundle) (n : Node)
    (events : List (Env × Event)) : Prop :=
  ∀ done env key, done <+: events →
    phaseOf (Runs.run (nodeStep C) n done) i = some (.awaitAck key) →
    phaseOf (Runs.run (nodeStep C) n (done ++ [(env, .resume i)])) i = some (.returned true) →
    BoundTo (Runs.run (nodeStep C) n (done ++ [(env, .resume i)])).transport addr bundle key

/-- What is installed is bound from then on. -/
theorem bound_installs (env : Env) (t : MeshTransport) (data : Bytes) (addr : Addr)
    (key : SessionKey) (bundle : PublicBundle) (h : installs C t data addr = some (key, bundle)) :
    bound (dispatch C env t data addr).state bundle.deviceId = some (addr, key, bundle) := by
  rw [bound_dispatch, h]
  exact if_pos rfl

/-- What a caller processes in a handshake: the response, its own turn, and the acknowledgement. -/
def exchange (call : ℕ) (wire : Bytes) : List (Env × Event) :=
  let sealed := stub.encryptMessage (stillEnv.nonce 0) (keyAckMagic ++ stillEnv.filler.toList)
    sharedKey []
  [(stillEnv, .datagram (frame .handshakeResp sid wire zeroMac) alphaAddr),
    (stillEnv, .resume call),
    (stillEnv, .datagram (frame .keyAck sid (sealed.1 ++ sealed.2) zeroMac) alphaAddr)]

/-- Whoever the response names has the one session when a call to alpha is acknowledged. -/
theorem exchange_acked {n : Node} (hn : Started bravo n) {wire : Bytes} {named : PublicBundle}
    (hwire : announced stub wire = some named) : ∃ n' call,
    Runs.run (nodeStep stub)
      (nodeStep stub n (stillEnv, .connect alphaAddr (getPublicBundle stub alpha)))
      (exchange n.calls.length wire) = n' ∧ WellFormed n' ∧
    n'.calls[n.calls.length]? = some call ∧ call.phase = .awaitAck sharedKey ∧ Acked n' call ∧
    ∀ peerId, bound n'.transport peerId =
      if named.deviceId = peerId then some (alphaAddr, sharedKey, named) else none := by
  obtain ⟨n', h, hrun, hcall, hget, hack, _, _, hbound⟩ := exchange_run stub stub_aeadCorrect stillEnv
    stillEnv stillEnv stillEnv n alphaAddr (getPublicBundle stub alpha) named sid sid wire _ sharedKey
    (stillEnv.nonce 0) stillEnv.filler (by rw [hn.1.identity]; exact honest_bravo)
    (verify_getPublicBundle stub alpha honest_alpha.sign) hwire (stub_kemEncapsulate _ _ _ _)
  refine ⟨n', _, hrun, ?_, hcall, rfl, ⟨h, hget, hack⟩, fun peerId => ?_⟩
  · rw [← hrun]
    exact Runs.invariant_of_step (nodeStep_wellFormed stub) _ _
      (nodeStep_wellFormed stub n _ (started_wellFormed bravo n hn))
  · rw [hbound, bound, hn.1.sessions]
    rfl

/-- Whatever the node processes after connect(addr, bundle) started, in whatever
order: the call finds the session it asked for exactly when every event binds. -/
theorem connect_binds_iff (owner : DeviceIdentity) (n : Node) (hn : Reachable C owner n)
    (env : Env) (addr : Addr) (bundle : PublicBundle) (events : List (Env × Event)) :
    FindsSession C n.calls.length addr bundle (nodeStep C n (env, .connect addr bundle)) events ↔
    Runs.Always (nodeStep C) (Binds C n.calls.length addr bundle)
      (nodeStep C n (env, .connect addr bundle)) events := by
  have hstart := tracks_connect C env n (reachable_wellFormed C owner n hn) addr bundle
  generalize nodeStep C n (env, .connect addr bundle) = n₁ at hstart ⊢
  generalize n.calls.length = i at hstart ⊢
  have hreturn : ∀ done env' key call,
      (Runs.run (nodeStep C) n₁ done).calls[i]? = some call → call.phase = .awaitAck key →
      (phaseOf (Runs.run (nodeStep C) n₁ (done ++ [(env', .resume i)])) i = some (.returned true) ↔
        Acked (Runs.run (nodeStep C) n₁ done) call) ∧
      (BoundTo (Runs.run (nodeStep C) n₁ (done ++ [(env', .resume i)])).transport addr bundle key ↔
        BoundTo (Runs.run (nodeStep C) n₁ done).transport addr bundle key) := by
    intro done env' key call hcall hphase
    have htracks := Runs.invariant_of_step (tracks_step C i) n₁ done hstart.1
    obtain ⟨hiff, hsessions⟩ := resume_awaitAck C env' _ htracks.wellFormed i call key hcall hphase
    rw [Runs.run_concat]
    refine ⟨hiff, boundTo_congr _ _ addr bundle key fun peerId => ?_⟩
    rw [bound, hsessions]
    rfl
  rw [← Runs.invariant_prefixes_iff (fun s e h => settled_step_iff C i addr bundle s e h) n₁ events
    hstart]
  constructor
  · intro h done hdone
    refine ⟨Runs.invariant_of_step (tracks_step C i) n₁ done hstart.1,
      fun call key hcall hphase hacked => ?_⟩
    obtain ⟨hiff, hsame⟩ := hreturn done env key call hcall hphase
    refine hsame.mp (h done env key hdone ?_ (hiff.mpr hacked))
    rw [phaseOf, hcall, Option.map_some, hphase]
  · intro h done env' key hdone hphase hreturned
    obtain ⟨call, hcall, hphase'⟩ := Option.map_eq_some_iff.mp hphase
    obtain ⟨hiff, hsame⟩ := hreturn done env' key call hcall hphase'
    exact hsame.mpr ((h done hdone).2 call key hcall hphase' (hiff.mp hreturned))

/-- Undisturbed, the call returns True and finds its session. -/
theorem connect_binds_iff_undisturbed : ∃ n n₁ wire, Reachable stub bravo n ∧
    packBundle (getPublicBundle stub alpha) = .ok wire ∧
    n₁ = nodeStep stub n (stillEnv, .connect alphaAddr (getPublicBundle stub alpha)) ∧
    phaseOf (Runs.run (nodeStep stub) n₁
      (exchange n.calls.length wire ++ [(stillEnv, .resume n.calls.length)])) n.calls.length =
        some (.returned true) ∧
    FindsSession stub n.calls.length alphaAddr (getPublicBundle stub alpha) n₁
      (exchange n.calls.length wire) := by
  obtain ⟨n, hn, _⟩ := exists_started
  obtain ⟨wire, hpack, hlen, hwire⟩ := announced_wire stub alpha honest_alpha
  have hreach : Reachable stub bravo n := ⟨n, [], hn, rfl⟩
  obtain ⟨n', call, hrun, hwf, hcall, hphase, hacked, hbound⟩ := exchange_acked hn hwire
  obtain ⟨hreturns, _⟩ := resume_awaitAck stub stillEnv n' hwf n.calls.length call _ hcall hphase
  refine ⟨n, _, wire, hreach, hpack, rfl, ?_, ?_⟩
  · rw [Runs.run_append, hrun]
    exact hreturns.mpr hacked
  refine (connect_binds_iff stub bravo n hreach stillEnv alphaAddr (getPublicBundle stub alpha) _).mpr
    ⟨?_, ?_, ?_, trivial⟩
  -- a HANDSHAKE_RESP installs nothing
  · intro data sender _ _ _ _ he _ _ hinstalls
    cases he
    have hparse := parsePacket_unkeyed .handshakeResp sid wire (by rw [hlen]; decide)
    simp only [installs, hparse] at hinstalls
    contradiction
  · intro data sender _ _ _ _ he
    contradiction
  -- the KEY_ACK installs what the node has in the end
  · intro data sender call' key newKey installed he hcall' hphase' hinstalls _
    cases he
    have hstep := bound_installs stub stillEnv _ _ _ _ installed hinstalls
    have hlast := hbound installed.deviceId
    rw [← hrun] at hlast hcall
    have hsame := hstep.symm.trans hlast
    cases hcall'.symm.trans hcall
    cases hphase'.symm.trans hphase
    split at hsame
    · cases hsame
      rw [if_pos rfl]
      exact ⟨rfl, rfl, rfl, rfl, rfl⟩
    · contradiction

/-- A HANDSHAKE_RESP with somebody else's bundle, sent from the peer's address, makes
the call return True without the session it asked for. -/
theorem forged_response_misbinds : ¬ ∀ (owner : DeviceIdentity) (n : Node) (env : Env)
    (addr : Addr) (bundle : PublicBundle) (events : List (Env × Event)),
    Reachable stub owner n →
    (∀ e ∈ events, (∃ data, e.2 = .datagram data addr) ∨ e.2 = .resume n.calls.length) →
    FindsSession stub n.calls.length addr bundle (nodeStep stub n (env, .connect addr bundle))
      events := by
  intro hclaim
  obtain ⟨n, hn, _⟩ := exists_started
  have hreach : Reachable stub bravo n := ⟨n, [], hn, rfl⟩
  obtain ⟨wire, _, _, hwire⟩ := announced_wire stub charlie honest_charlie
  have hevents : ∀ e ∈ exchange n.calls.length wire,
      (∃ data, e.2 = .datagram data alphaAddr) ∨ e.2 = .resume n.calls.length := by
    intro e he
    rcases List.mem_cons.mp he with rfl | he
    · exact Or.inl ⟨_, rfl⟩
    · rcases List.mem_cons.mp he with rfl | he
      · exact Or.inr rfl
      · rw [List.mem_singleton.mp he]
        exact Or.inl ⟨_, rfl⟩
  have hfinds := hclaim bravo n stillEnv alphaAddr (getPublicBundle stub alpha) _ hreach hevents
  obtain ⟨n', call, hrun, hwf, hcall, hphase, hacked, hbound⟩ := exchange_acked hn hwire
  obtain ⟨hreturns, hsessions⟩ := resume_awaitAck stub stillEnv n' hwf n.calls.length call _ hcall
    hphase
  obtain ⟨s, hs, _⟩ := hfinds (exchange n.calls.length wire) stillEnv sharedKey (List.prefix_refl _)
    (by rw [hrun, phaseOf, hcall, Option.map_some, hphase])
    (by
      rw [Runs.run_append, hrun]
      exact hreturns.mpr hacked)
  rw [Runs.run_append, hrun, Runs.run_cons, Runs.run_nil, hsessions] at hs
  have hnone := hbound (getPublicBundle stub alpha).deviceId
  rw [if_neg (by decide), bound, hs] at hnone
  contradiction

end Mesim.ConnectBinding
