import Mesim.SignedDelivery

/-!
Which exceptions leave the dispatcher.
Every handler either guards what it reads or raises what the dispatcher
swallows, with one exception: a MESSAGE fragment may bring its buffer to as many
fragments as its own header asks for while one of the indices below that number
is missing. Where every fragment of a message carries the same count, no buffer
ever gets there.
-/
namespace Mesim.Robustness

open Octets TextCodec Crypto Identity Packet Transport Operations Dispatch Nodes Fragments
open Honest Reassembly FragmentDelivery MeshTransport Outcome

variable (C : Suite)

/-- The buffer has as many fragments as the header asks for, but not the ones it asks for. -/
def Incomplete (buf : OrderedDict ℕ Bytes) (fragTotal : ℕ) : Prop :=
  fragTotal ≤ buf.size ∧ ∃ i < fragTotal, buf.get? i = none

/-- The datagram is an admitted fragment that leaves its buffer incomplete so. -/
def Gapped (t : MeshTransport) (data : Bytes) (addr : Addr) : Prop :=
  ∃ peerId session payload fragment buf, Admitted C t data addr peerId session payload fragment ∧
    openBuffer t (peerId, (unpackFragHeader payload).msgId) = some buf ∧
    Incomplete (buf.set (unpackFragHeader payload).fragIdx fragment)
      (unpackFragHeader payload).fragTotal

section Handlers

/-- Nothing but exceptions that the dispatcher swallows. -/
def Quiet (out : Outcome) : Prop := ∀ e, out.raised = some e → swallowed e = true

theorem quiet_done (t : MeshTransport) : Quiet (done t) := fun _ h => by contradiction

theorem quiet_raise (t : MeshTransport) (e : PyError) (h : swallowed e = true) :
    Quiet (raise t e) := by
  rintro _ ⟨⟩
  exact h

theorem quiet_returned (t : MeshTransport) (effects : List Effect) : Quiet ⟨t, effects, none⟩ :=
  fun _ h => by contradiction

theorem quiet_attempt {α : Type} (t : MeshTransport) (x : Except PyError α) (k : α → Outcome)
    (hx : ∀ e, x = .error e → swallowed e = true) (hk : ∀ a, x = .ok a → Quiet (k a)) :
    Quiet (attempt t x k) := by
  unfold attempt
  split
  · exact quiet_raise t _ (hx _ rfl)
  · exact hk _ rfl

theorem swallowed_rank (x : UInt8) (e : PyError) (h : Rank.ofByte? x = .error e) :
    swallowed e = true := by
  unfold Rank.ofByte? at h
  repeat' split at h
  all_goals first
    | contradiction
    | cases h
      rfl

theorem swallowed_verify (message signature : Bytes) (key : Ed25519VerifyKey) (e : PyError)
    (h : C.verifySignature message signature key = .error e) : swallowed e = true := by
  unfold Suite.verifySignature at h
  split at h
  · contradiction
  · cases h
    rfl

theorem swallowed_unpackBundle (data : Bytes) (e : PyError) (h : unpackBundle data = .error e) :
    swallowed e = true := by
  unfold unpackBundle at h
  split at h
  · repeat' split at h
    all_goals first
      | contradiction
      | cases h
        rfl
      | skip
    rename_i hrank
    cases h
    exact swallowed_rank _ _ hrank
  · cases h
    rfl

theorem swallowed_receiveBundle (payload : Bytes) (e : PyError)
    (h : receiveBundle C payload = .error e) : swallowed e = true := by
  cases hunpack : unpackBundle payload with
  | error err =>
    simp only [receiveBundle, hunpack, bind, Except.bind] at h
    cases h
    exact swallowed_unpackBundle payload e hunpack
  | ok bundle =>
    cases hverify : verifyPublicBundle C bundle with
    | error err =>
      simp only [receiveBundle, hunpack, hverify, bind, Except.bind] at h
      cases h
      exact swallowed_verify C _ _ _ e hverify
    | ok =>
      simp only [receiveBundle, hunpack, hverify, bind, Except.bind, pure, Except.pure] at h
      contradiction

theorem swallowed_kemDecapsulate (ciphertext : Fixed 1088) (pub : X25519PubKey)
    (priv : X25519PrivKey) (secret : MLKEMSecretKey) (e : PyError)
    (h : C.kemDecapsulate ciphertext pub priv secret = .error e) : swallowed e = true := by
  unfold Suite.kemDecapsulate at h
  split at h
  · cases h
    rfl
  · contradiction

theorem swallowed_packBundle (bundle : PublicBundle) (e : PyError)
    (h : packBundle bundle = .error e) : swallowed e = true := by
  unfold packBundle at h
  split at h
  · cases h
    rfl
  · contradiction

theorem buildPacket_error (ptype : PacketType) (senderId : Fixed 32) (payload : Bytes)
    (key : Option SessionKey) (e : PyError) (hlen : payload.length < 65536)
    (h : buildPacket C ptype senderId payload key = .error e) : False := by
  simp only [buildPacket, packHeader_ok ptype senderId payload.length hlen] at h
  contradiction

theorem handleHandshake_quiet (t : MeshTransport) (payload : Bytes) (addr : Addr) :
    Quiet (handleHandshake C t payload addr) := by
  unfold handleHandshake
  split
  · exact quiet_done t
  · refine quiet_attempt t _ _ (swallowed_receiveBundle C payload) fun bundle _ => ?_
    refine quiet_attempt _ _ _ (swallowed_packBundle _) fun wire hwire => ?_
    refine quiet_attempt _ _ _ (fun e he => ?_) fun packet _ => quiet_returned _ _
    exact (buildPacket_error C _ _ wire none e (packBundle_fits C _ wire hwire) he).elim

theorem handleHandshakeResp_quiet (t : MeshTransport) (payload : Bytes) (addr : Addr) :
    Quiet (handleHandshakeResp C t payload addr) := by
  unfold handleHandshakeResp
  split
  · exact quiet_done t
  · split
    · exact quiet_done t
    · exact quiet_attempt t _ _ (swallowed_receiveBundle C payload) fun _ _ => quiet_done _

theorem handleKeyInit_quiet (env : Env) (t : MeshTransport) (payload : Bytes) (addr : Addr) :
    Quiet (handleKeyInit C env t payload addr) := by
  unfold handleKeyInit
  split
  · exact quiet_done t
  · split
    · refine quiet_attempt t _ _ (swallowed_kemDecapsulate C _ _ _ _) fun key _ => ?_
      refine quiet_attempt t _ _ (fun e he => ?_) fun packet _ => quiet_returned _ _
      refine (buildPacket_error C .keyAck t.senderId _ none e ?_ he).elim
      simp only [List.length_append, C.chacha_length, List.Vector.toList_length]
      decide
    · exact quiet_done t

theorem handleKeyAck_quiet (env : Env) (t : MeshTransport) (payload : Bytes) (addr : Addr) :
    Quiet (handleKeyAck C env t payload addr) := by
  unfold handleKeyAck
  split
  · split
    · exact quiet_done t
    · rename_i hlen
      split
      · exact quiet_done t
      · rename_i e hne hopen
        have hnonce : (payload.take nonceSize).length = 12 := by
          rw [List.length_take]
          simp only [nonceSize] at hlen ⊢
          omega
        rw [C.decryptMessage_error _ _ _ _ e hnonce hopen]
        exact quiet_raise t _ rfl
      · split
        · exact quiet_done t
        · split
          · exact quiet_done t
          · exact quiet_returned _ _
  · exact quiet_done t

theorem handlePing_quiet (env : Env) (t : MeshTransport) (addr : Addr) (peerId : String)
    (session : SessionInfo) : Quiet (handlePing C env t addr peerId session) := by
  unfold handlePing
  refine quiet_attempt t _ _ (fun e he => ?_) fun packet _ => quiet_returned _ _
  exact (buildPacket_error C .pong t.senderId [] _ e (by decide) he).elim

end Handlers

section Message

theorem joinFragments_cases (buf : OrderedDict ℕ Bytes) (n : ℕ) :
    (∃ assembled, joinFragments buf n = .ok assembled ∧ ∀ i < n, buf.get? i ≠ none) ∨
      (joinFragments buf n = .error .keyError ∧ ∃ i < n, buf.get? i = none) := by
  induction n with
  | zero => exact Or.inl ⟨[], rfl, fun i hi => absurd hi (Nat.not_lt_zero i)⟩
  | succ n ih =>
    rcases ih with ⟨assembled, hjoin, hall⟩ | ⟨hjoin, i, hi, hnone⟩
    · cases hget : buf.get? n with
      | none =>
        exact Or.inr ⟨by simp only [joinFragments, hjoin, hget], n, Nat.lt_succ_self n, hget⟩
      | some fragment =>
        refine Or.inl ⟨assembled ++ fragment, by simp only [joinFragments, hjoin, hget], ?_⟩
        intro i hi
        rcases Nat.lt_succ_iff_lt_or_eq.mp hi with hlt | rfl
        · exact hall i hlt
        · simp [hget]
    · exact Or.inr ⟨by simp only [joinFragments, hjoin], i, Nat.lt_succ_of_lt hi, hnone⟩

theorem deliverAssembled_quiet (env : Env) (t : MeshTransport) (session : SessionInfo)
    (peerId : String) (addr : Addr) (msgId : ℕ) (assembled : Bytes) :
    Quiet (deliverAssembled C env t session peerId addr msgId assembled) := by
  unfold deliverAssembled
  dsimp only
  split
  · exact quiet_done t
  · split
    · exact quiet_done t
    · rename_i e hne hverify
      exact quiet_raise t e (swallowed_verify C _ _ _ e hverify)
    · refine quiet_attempt t _ _ (fun e he => ?_) fun packet _ => quiet_returned _ _
      exact (buildPacket_error C .ack t.senderId _ _ e (by rw [packBE_length]; decide) he).elim

/-- Storing a fragment raises something that is not swallowed exactly when the buffer
it goes into is left incomplete. -/
theorem storeFragment_quiet_iff (env : Env) (t : MeshTransport) (session : SessionInfo)
    (peerId : String) (addr : Addr) (msgId fragIdx fragTotal : ℕ) (fragment : Bytes) :
    Quiet (storeFragment C env t session peerId addr msgId fragIdx fragTotal fragment) ↔
      ¬ ∃ buf, openBuffer t (peerId, msgId) = some buf ∧
        Incomplete (buf.set fragIdx fragment) fragTotal := by
  unfold storeFragment
  cases hopen : openBuffer t (peerId, msgId) with
  | none => exact iff_of_true (quiet_done t) (by simp)
  | some buf =>
    dsimp only
    have hone : (∃ buf', some buf = some buf' ∧
        Incomplete (buf'.set fragIdx fragment) fragTotal) ↔
          Incomplete (buf.set fragIdx fragment) fragTotal := by simp
    rw [hone]
    split
    · rename_i hsize
      exact iff_of_true (quiet_done _) fun h => absurd h.1 (Nat.not_le.mpr hsize)
    · rename_i hsize
      rcases joinFragments_cases (buf.set fragIdx fragment) fragTotal with
        ⟨assembled, hjoin, hall⟩ | ⟨hjoin, hmissing⟩
      · rw [hjoin]
        apply iff_of_true (deliverAssembled_quiet C env _ session peerId addr msgId assembled)
        rintro ⟨_, i, hi, hnone⟩
        exact hall i hi hnone
      · rw [hjoin]
        refine iff_of_false (fun h => ?_) (not_not.mpr ⟨Nat.not_lt.mp hsize, hmissing⟩)
        exact absurd (h .keyError rfl) (by decide)

theorem done_or_admitted (env : Env) (t : MeshTransport) (data sid payload : Bytes) (addr : Addr)
    (hparse : parsePacket data = .ok ⟨.message, sid, payload⟩)
    (hgate : macGate C t .message data addr = true) :
    handleMessage C env t payload addr data = done t ∨ ∃ peerId session fragment,
      Admitted C t data addr peerId session payload fragment ∧
      handleMessage C env t payload addr data =
        stored C env t addr peerId session payload fragment := by
  unfold handleMessage
  split
  · exact Or.inl rfl
  · rename_i peerId hby
    split
    · exact Or.inl rfl
    · rename_i session hsession
      split
      · exact Or.inl rfl
      · rename_i hsize
        dsimp only
        split
        · exact Or.inl rfl
        · rename_i hindex
          split
          · exact Or.inl rfl
          · rename_i e hne hopen
            have hnonce : (slice payload fragHeaderSize nonceSize).length = 12 :=
              slice_length _ _ _ (by simp only [fragHeaderSize, nonceSize] at hsize ⊢; omega)
            exact absurd (C.decryptMessage_error _ _ _ _ e hnonce hopen) hne
          · rename_i fragment hopen
            exact Or.inr ⟨peerId, session, fragment, ⟨⟨sid, hparse⟩, hgate, ⟨hby, hsession⟩,
              Nat.not_lt.mp hsize, by omega, hopen⟩, rfl⟩

theorem admitted_unique {t : MeshTransport} {data : Bytes} {addr : Addr} {peerId peerId' : String}
    {session session' : SessionInfo} {payload payload' fragment fragment' : Bytes}
    (h : Admitted C t data addr peerId session payload fragment)
    (h' : Admitted C t data addr peerId' session' payload' fragment') :
    peerId = peerId' ∧ session = session' ∧ payload = payload' ∧ fragment = fragment' := by
  obtain ⟨sid, hparse⟩ := h.parsed
  obtain ⟨sid', hparse'⟩ := h'.parsed
  rw [hparse] at hparse'
  cases hparse'
  have hby := h.holds.byAddr.symm.trans h'.holds.byAddr
  cases hby
  have hsession := h.holds.session.symm.trans h'.holds.session
  cases hsession
  have hopen := h.opened.symm.trans h'.opened
  cases hopen
  exact ⟨rfl, rfl, rfl, rfl⟩

theorem handleMessage_quiet_iff (env : Env) (t : MeshTransport) (data sid payload : Bytes)
    (addr : Addr) (hparse : parsePacket data = .ok ⟨.message, sid, payload⟩)
    (hgate : macGate C t .message data addr = true) :
    Quiet (handleMessage C env t payload addr data) ↔ ¬ Gapped C t data addr := by
  rcases done_or_admitted C env t data sid payload addr hparse hgate with
    hdone | ⟨peerId, session, fragment, hadmitted, hstored⟩
  · rw [hdone]
    apply iff_of_true (quiet_done t)
    rintro ⟨peerId, session, payload', fragment, buf, hadmitted, hopen, hincomplete⟩
    obtain ⟨sid', hparse'⟩ := hadmitted.parsed
    have hpayload : payload' = payload :=
      congrArg ParsedPacket.payload (Except.ok.inj (hparse'.symm.trans hparse))
    subst hpayload
    have hquiet : Quiet (handleMessage C env t payload' addr data) := by
      rw [hdone]
      exact quiet_done t
    rw [handleMessage_admitted C env hadmitted, stored, storeFragment_quiet_iff] at hquiet
    exact hquiet ⟨buf, hopen, hincomplete⟩
  · rw [hstored, stored, storeFragment_quiet_iff]
    refine not_congr ⟨?_, ?_⟩
    · rintro ⟨buf, hopen, hincomplete⟩
      exact ⟨peerId, session, payload, fragment, buf, hadmitted, hopen, hincomplete⟩
    · rintro ⟨peerId', session', payload', fragment', buf, hadmitted', hopen, hincomplete⟩
      obtain ⟨rfl, rfl, rfl, rfl⟩ := admitted_unique C hadmitted hadmitted'
      exact ⟨buf, hopen, hincomplete⟩

end Message

section Dispatch

theorem not_gapped_of_ptype (t : MeshTransport) (data sid payload : Bytes) (addr : Addr)
    (ptype : PacketType) (hparse : parsePacket data = .ok ⟨ptype, sid, payload⟩)
    (hne : ptype ≠ .message) : ¬ Gapped C t data addr := by
  rintro ⟨_, _, _, _, _, hadmitted, _, _⟩
  obtain ⟨sid', hparse'⟩ := hadmitted.parsed
  exact hne (congrArg ParsedPacket.ptype (Except.ok.inj (hparse.symm.trans hparse')))

theorem handle_quiet (env : Env) (t : MeshTransport) (ptype : PacketType) (sid payload : Bytes)
    (data : Bytes) (addr : Addr) (hne : ptype ≠ .message) :
    Quiet (handle C env t ⟨ptype, sid, payload⟩ data addr) := by
  cases ptype with
  | message => exact absurd rfl hne
  | handshake => exact handleHandshake_quiet C t payload addr
  | handshakeResp => exact handleHandshakeResp_quiet C t payload addr
  | keyInit => exact handleKeyInit_quiet C env t payload addr
  | keyAck => exact handleKeyAck_quiet C env t payload addr
  | ack =>
    simp only [handle, handleAck]
    split
    · exact quiet_done t
    · exact quiet_returned _ _
  | ping =>
    simp only [handle]
    split
    · exact quiet_done t
    · exact handlePing_quiet C env t addr _ _
  | pong => exact quiet_done t
  | storeForward | originator =>
    simp only [handle]
    split
    · exact quiet_done t
    · exact quiet_returned _ _

theorem filter_eq_none_iff (out : Outcome) :
    out.raised.filter (fun e => ¬ swallowed e) = none ↔ Quiet out := by
  simp [Quiet, Option.filter_eq_none_iff]

/-- A datagram makes the dispatcher raise exactly when it leaves its buffer with enough
fragments, but not with the ones asked for. -/
theorem dispatch_raised_iff (env : Env) (t : MeshTransport) (data : Bytes) (addr : Addr) :
    (dispatch C env t data addr).raised = none ↔ ¬ Gapped C t data addr := by
  cases hparse : parsePacket data with
  | error e =>
    simp only [dispatch, hparse]
    apply iff_of_true rfl
    rintro ⟨_, _, _, _, _, hadmitted, _, _⟩
    obtain ⟨sid, hparse'⟩ := hadmitted.parsed
    rw [hparse] at hparse'
    contradiction
  | ok packet =>
    obtain ⟨ptype, sid, payload⟩ := packet
    by_cases hgate : macGate C t ptype data addr = true
    · simp only [dispatch, hparse, hgate, if_true]
      rw [filter_eq_none_iff]
      by_cases hmessage : ptype = .message
      · subst hmessage
        exact handleMessage_quiet_iff C env t data sid payload addr hparse hgate
      · exact iff_of_true (handle_quiet C env t ptype sid payload data addr hmessage)
          (not_gapped_of_ptype C t data sid payload addr ptype hparse hmessage)
    · simp only [dispatch, hparse, hgate]
      apply iff_of_true rfl
      rintro ⟨_, _, _, _, _, hadmitted, _, _⟩
      obtain ⟨sid', hparse'⟩ := hadmitted.parsed
      cases congrArg ParsedPacket.ptype (Except.ok.inj (hparse.symm.trans hparse'))
      exact hgate hadmitted.gate

end Dispatch

section Runs

/-- If the event is a datagram, its fragment does not leave its buffer incomplete. -/
def Ungapped (n : Node) : Env × Event → Prop
  | (_, .datagram data addr) => ¬ Gapped C n.transport data addr
  | _ => True

end Runs

section Uniform

variable (total : String × ℕ → ℕ)

/-- Every buffer's indices lie below the count of its message. -/
def Within (t : MeshTransport) : Prop :=
  ∀ bufKey buf i, t.fragBufs.get? bufKey = some buf → buf.get? i ≠ none → i < total bufKey

/-- An admitted fragment carries the count of its message. -/
def Uniform (n : Node) : Env × Event → Prop
  | (_, .datagram data addr) => ∀ peerId session payload fragment,
      Admitted C n.transport data addr peerId session payload fragment →
        (unpackFragHeader payload).fragTotal = total (peerId, (unpackFragHeader payload).msgId)
  | _ => True

theorem within_openBuffer {t : MeshTransport} (h : Within total t) (bufKey : String × ℕ)
    (buf : OrderedDict ℕ Bytes) (hopen : openBuffer t bufKey = some buf) (i : ℕ)
    (hi : buf.get? i ≠ none) : i < total bufKey := by
  unfold openBuffer at hopen
  split at hopen
  · rename_i buf' hget
    cases hopen
    exact h bufKey _ i hget hi
  · split at hopen
    · contradiction
    · cases hopen
      exact absurd rfl hi

/-- A buffer with at least `n` indices, all below `n`, has all of them. -/
theorem complete_of_within (buf : OrderedDict ℕ Bytes) (n : ℕ) (hsize : n ≤ buf.size)
    (hwithin : ∀ i, buf.get? i ≠ none → i < n) (i : ℕ) (hi : i < n) : buf.get? i ≠ none := by
  have hsub : buf.keys.toFinset ⊆ Finset.range n := by
    intro j hj
    obtain ⟨v, hv⟩ := (buf.mem_keys_iff j).mp (List.mem_toFinset.mp hj)
    exact Finset.mem_range.mpr (hwithin j (by rw [hv]; exact Option.some_ne_none v))
  have hcard : (Finset.range n).card ≤ buf.keys.toFinset.card := by
    rw [Finset.card_range, ← OrderedDict.size_eq_card_keys]
    exact hsize
  have heq := Finset.eq_of_subset_of_card_le hsub hcard
  have hmem : i ∈ buf.keys.toFinset := heq ▸ Finset.mem_range.mpr hi
  obtain ⟨v, hv⟩ := (buf.mem_keys_iff i).mp (List.mem_toFinset.mp hmem)
  rw [hv]
  exact Option.some_ne_none v

theorem ungapped_of_uniform (n : Node) (e : Env × Event) (h : Within total n.transport)
    (huniform : Uniform C total n e) : Ungapped C n e := by
  obtain ⟨env, event⟩ := e
  cases event with
  | connect _ _ | resume _ | timeout _ | send _ _ | retry => exact trivial
  | datagram data addr =>
    rintro ⟨peerId, session, payload, fragment, buf, hadmitted, hopen, hsize, i, hi, hnone⟩
    have htotal := huniform peerId session payload fragment hadmitted
    refine complete_of_within _ _ hsize (fun j hj => ?_) i hi hnone
    rw [OrderedDict.get?_set] at hj
    split at hj
    · rename_i heq
      rw [← heq]
      exact hadmitted.index
    · rw [htotal]
      exact within_openBuffer total h _ buf hopen j hj

theorem within_storeFragment (env : Env) {t : MeshTransport} (session : SessionInfo)
    (peerId : String) (addr : Addr) (msgId fragIdx fragTotal : ℕ) (fragment : Bytes)
    (h : Within total t) (hindex : fragIdx < total (peerId, msgId)) :
    Within total
      (storeFragment C env t session peerId addr msgId fragIdx fragTotal fragment).state := by
  have hset : ∀ buf, openBuffer t (peerId, msgId) = some buf → ∀ bufKey buf' i,
      (t.fragBufs.set (peerId, msgId) (buf.set fragIdx fragment)).get? bufKey = some buf' →
        buf'.get? i ≠ none → i < total bufKey := by
    intro buf hopen bufKey buf' i hget hi
    rw [OrderedDict.get?_set] at hget
    split at hget
    · rename_i heq
      cases hget
      rw [OrderedDict.get?_set] at hi
      rw [← heq]
      split at hi
      · rename_i hij
        rw [← hij]
        exact hindex
      · exact within_openBuffer total h _ buf hopen i hi
    · exact h bufKey buf' i hget hi
  unfold storeFragment attempt
  split
  · exact h
  · rename_i buf hopen
    dsimp only
    split
    · exact hset buf hopen
    · split
      · exact hset buf hopen
      · intro bufKey buf' i hget hi
        rw [fragBufs_deliverAssembled, OrderedDict.get?_erase] at hget
        split at hget
        · contradiction
        · exact hset buf hopen bufKey buf' i hget hi

/-- A datagram that is no admitted fragment leaves the buffers alone. -/
theorem fragBufs_not_admitted (env : Env) (t : MeshTransport) (data : Bytes) (addr : Addr)
    (h : ¬ ∃ peerId session payload fragment,
      Admitted C t data addr peerId session payload fragment) (bufKey : String × ℕ) :
    (dispatch C env t data addr).state.fragBufs.get? bufKey = t.fragBufs.get? bufKey := by
  by_cases habout : about t data addr = some bufKey
  · unfold about at habout
    split at habout
    · rename_i sid payload hparse
      by_cases hgate : macGate C t .message data addr = true
      · rcases done_or_admitted C env t data sid payload addr hparse hgate with
          hdone | ⟨peerId, session, fragment, hadmitted, _⟩
        · simp only [dispatch, hparse, hgate, if_true, handle, hdone, done]
        · exact absurd ⟨peerId, session, payload, fragment, hadmitted⟩ h
      · simp only [dispatch, hparse, hgate]
        rfl
    · contradiction
  · exact fragBufs_dispatch C env t data addr bufKey habout

theorem within_step (n : Node) (e : Env × Event) (h : Within total n.transport)
    (huniform : Uniform C total n e) : Within total (nodeStep C n e).transport := by
  obtain ⟨env, event⟩ := e
  by_cases hdatagram : ∃ data addr, event = .datagram data addr
  · obtain ⟨data, addr, rfl⟩ := hdatagram
    show Within total (dispatch C env n.transport data addr).state
    by_cases hadmitted : ∃ peerId session payload fragment,
        Admitted C n.transport data addr peerId session payload fragment
    · obtain ⟨peerId, session, payload, fragment, hadmitted⟩ := hadmitted
      rw [dispatch_admitted C env hadmitted]
      apply within_storeFragment C total env session peerId addr _ _ _ fragment h
      rw [← huniform peerId session payload fragment hadmitted]
      exact hadmitted.index
    · intro bufKey buf i hget
      rw [fragBufs_not_admitted C env n.transport data addr hadmitted] at hget
      exact h bufKey buf i hget
  · have hkeep := fragBufs_own C n env event fun data addr heq => hdatagram ⟨data, addr, heq⟩
    intro bufKey buf i hget
    rw [hkeep] at hget
    exact h bufKey buf i hget

/-- Where the fragments of a message agree on their count, no buffer is left incomplete. -/
theorem uniform_ungapped (n : Node) (events : List (Env × Event)) (hwithin : Within total n.transport)
    (h : Runs.Always (nodeStep C) (Uniform C total) n events) :
    Runs.Always (nodeStep C) (Ungapped C) n events := by
  induction events generalizing n with
  | nil => exact trivial
  | cons e rest ih =>
    obtain ⟨huniform, hrest⟩ := h
    have hungapped : Ungapped C n e := ungapped_of_uniform C total n e hwithin huniform
    exact ⟨hungapped, ih _ (within_step C total n e hwithin huniform) hrest⟩

end Uniform

section Results

/-- From any node on, no datagram of a run makes the dispatcher raise exactly when none of them
leaves its buffer with enough fragments, but not with the ones asked for. A node that starts without
buffers stays clear of it while the fragments of a message agree on their count. -/
theorem dispatches_quiet_iff (n : Node) (events : List (Env × Event)) :
    ((∀ done env data addr, done ++ [(env, .datagram data addr)] <+: events →
      (dispatch C env (Runs.run (nodeStep C) n done).transport data addr).raised = none) ↔
      Runs.Always (nodeStep C) (Ungapped C) n events) ∧
    ∀ total, n.transport.fragBufs = .empty → Runs.Always (nodeStep C) (Uniform C total) n events →
      Runs.Always (nodeStep C) (Ungapped C) n events := by
  refine ⟨?_, fun total hempty huniform => ?_⟩
  · rw [Runs.always_iff]
    constructor
    · rintro h done ⟨env, event⟩ hdone
      cases event with
      | datagram data addr => exact (dispatch_raised_iff C _ _ _ _).mp (h done env data addr hdone)
      | connect _ _ | resume _ | timeout _ | send _ _ | retry => exact trivial
    · intro h done env data addr hdone
      exact (dispatch_raised_iff C _ _ _ _).mpr (h done _ hdone)
  · have hwithin : Within total n.transport := by
      intro bufKey buf i hget
      rw [hempty] at hget
      contradiction
    exact uniform_ungapped C total n events hwithin huniform

end Results

section Stub

/-- Packets of `n` fragments without content. -/
def blanks (n : ℕ) : Sending where
  senderId := sid
  key := sharedKey
  msgId := 7
  nonce := stillEnv.nonce
  chunks := List.replicate n []

theorem sendable_blanks (n : ℕ) (hn : n < 256) : (blanks n).Sendable := by
  intro i chunk hchunk
  obtain ⟨hi, heq⟩ := List.getElem?_eq_some_iff.mp hchunk
  have hlen : (blanks n).chunks.length = n := List.length_replicate
  rw [hlen] at hi
  have hempty : chunk = [] := by
    rw [← heq]
    exact List.getElem_replicate _
  have hid : (blanks n).msgId < 256 ^ 4 := (by decide : 7 < 256 ^ 4)
  rw [hempty]
  refine ⟨hid, by omega, ?_, by decide⟩
  rw [Sending.total, hlen]
  exact hn

theorem blanks_get (n i : ℕ) (hi : i < n) : (blanks n).chunks[i]? = some [] := by
  rw [blanks, List.getElem?_replicate, if_pos hi]

/-- A peer whose second fragment asks for two when its first asked for six. -/
theorem inconsistent_counts_escape : ¬ ∀ (owner : DeviceIdentity) (n : Node),
    Reachable stub owner n → ∀ env data addr,
      (dispatch stub env n.transport data addr).raised = none := by
  intro hclaim
  obtain ⟨_, b, _, hreach, _, hest, _, ⟨t₀, ht₀, _, _, hsame⟩⟩ := exists_established [] .empty
  obtain ⟨session, hholds, _, hkey, _⟩ := holds_of_established hest
  have hbufs : b.transport.fragBufs = .empty := hsame.fragBufs.trans ht₀.fragBufs
  let next : Node :=
    nodeStep stub b (stillEnv, .datagram ((blanks 6).packet stub 5 []) alphaAddr)
  have hopen : openBuffer b.transport ("alpha", 7) = some .empty := by
    rw [openBuffer, hbufs]
    rfl
  have hstored := (dispatch_packet stub stub_aeadCorrect stillEnv hholds (blanks 6) hkey
    (sendable_blanks 6 (by decide)) 5 [] (blanks_get 6 5 (by decide))).1
  have hnext : next.transport.fragBufs.get? ("alpha", 7) = some (OrderedDict.empty.set 5 []) := by
    show (dispatch stub stillEnv b.transport _ alphaAddr).state.fragBufs.get? _ = _
    rw [hstored]
    show (storeFragment stub stillEnv b.transport session "alpha" alphaAddr 7 5 _ []).state.fragBufs.get?
      _ = _
    simp only [storeFragment, hopen]
    rw [if_pos (by decide)]
    exact OrderedDict.get?_set_self _ _ _
  obtain ⟨sid, payload, hmessage⟩ :=
    isMessage_packet stub (blanks 6) (sendable_blanks 6 (by decide)) (blanks_get 6 5 (by decide))
  obtain ⟨session', hholds', hkey', _⟩ := holds_of_same hholds
    (sameHandshakes_message stub stillEnv b.transport _ sid payload alphaAddr hmessage)
  refine (dispatch_raised_iff stub stillEnv next.transport _ alphaAddr).mp
    (hclaim bravo next (hreach.next _) stillEnv ((blanks 2).packet stub 1 []) alphaAddr) ?_
  have hunpack := Sending.unpack_payload stub (sendable_blanks 2 (by decide))
    (blanks_get 2 1 (by decide))
  refine ⟨"alpha", session', _, [], OrderedDict.empty.set 5 [], admitted_packet stub
    stub_aeadCorrect hholds' (blanks 2) (hkey'.trans hkey) (sendable_blanks 2 (by decide)) 1 []
    (blanks_get 2 1 (by decide)), ?_, ?_⟩
  · rw [hunpack]
    show openBuffer next.transport ("alpha", 7) = _
    simp only [openBuffer, hnext]
  · rw [hunpack]
    exact ⟨by decide, 0, by decide, by decide⟩

end Stub

end Mesim.Robustness
