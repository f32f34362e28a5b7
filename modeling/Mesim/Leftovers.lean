import Mesim.FragmentDelivery

/-!
A message whose buffer is not empty when it comes.
Buffers are kept under the peer's id and the msg_id for as long as they are not
complete, whatever happens to the session, and a new process counts msg_ids from 1
again. So a message can find fragments of an earlier one in its buffer: until its
own arrive they stand in for them.
-/
namespace Mesim.Leftovers

open Octets TextCodec Crypto Identity Packet Transport Operations Dispatch Nodes Fragments
open Honest Reassembly FragmentDelivery MeshTransport Outcome

section Content

/-- What the buffer holds at an index. -/
def content (t : MeshTransport) (bufKey : String × ℕ) (j : ℕ) : Option Bytes :=
  (t.fragBufs.get? bufKey).bind fun buf => buf.get? j

theorem content_congr {t t' : MeshTransport} {bufKey : String × ℕ}
    (h : t'.fragBufs.get? bufKey = t.fragBufs.get? bufKey) : content t' bufKey = content t bufKey := by
  funext j
  simp only [content, h]

def Covered (held : ℕ → Option Bytes) (total : ℕ) : Prop := ∀ j < total, held j ≠ none

/-- The fragments one after the other. -/
def joined (held : ℕ → Option Bytes) : ℕ → Bytes
  | 0 => []
  | total + 1 => joined held total ++ (held total).getD []

theorem joinFragments_covered (buf : OrderedDict ℕ Bytes) (total : ℕ)
    (h : Covered (fun j => buf.get? j) total) :
    joinFragments buf total = .ok (joined (fun j => buf.get? j) total) := by
  induction total with
  | zero => rfl
  | succ total ih =>
    obtain ⟨fragment, hfragment⟩ := Option.ne_none_iff_exists'.mp (h total (Nat.lt_succ_self total))
    have hbefore := ih fun j hj => h j (Nat.lt_succ_of_lt hj)
    simp only [joinFragments, hbefore, hfragment, joined, Option.getD_some]

theorem joinFragments_uncovered (buf : OrderedDict ℕ Bytes) (total : ℕ)
    (h : ¬ Covered (fun j => buf.get? j) total) : joinFragments buf total = .error .keyError := by
  induction total with
  | zero => exact absurd (fun j hj => absurd hj (Nat.not_lt_zero j)) h
  | succ total ih =>
    by_cases hbefore : Covered (fun j => buf.get? j) total
    · have hnone : buf.get? total = none := by
        by_contra hsome
        refine h fun j hj => ?_
        rcases Nat.lt_succ_iff_lt_or_eq.mp hj with hlt | rfl
        · exact hbefore j hlt
        · exact hsome
      simp only [joinFragments, joinFragments_covered buf total hbefore, hnone]
    · simp only [joinFragments, ih hbefore]

theorem size_of_covered (buf : OrderedDict ℕ Bytes) (total : ℕ)
    (h : Covered (fun j => buf.get? j) total) : total ≤ buf.size := by
  rw [OrderedDict.size_eq_card_keys]
  have hsub : Finset.range total ⊆ buf.keys.toFinset := by
    intro j hj
    obtain ⟨v, hv⟩ := Option.ne_none_iff_exists'.mp (h j (Finset.mem_range.mp hj))
    exact List.mem_toFinset.mpr ((buf.mem_keys_iff j).mpr ⟨v, hv⟩)
  have hcard := Finset.card_le_card hsub
  rwa [Finset.card_range] at hcard

theorem get?_openBuffer {t : MeshTransport} {bufKey : String × ℕ} {buf : OrderedDict ℕ Bytes}
    (hopen : openBuffer t bufKey = some buf) (j : ℕ) : buf.get? j = content t bufKey j := by
  unfold content
  cases hget : t.fragBufs.get? bufKey with
  | some own =>
    simp only [openBuffer, hget, Option.some.injEq] at hopen
    subst hopen
    rfl
  | none =>
    simp only [openBuffer, hget] at hopen
    split at hopen
    · exact absurd hopen.symm (Option.some_ne_none buf)
    · cases hopen
      rfl

theorem set_openBuffer {t : MeshTransport} {bufKey : String × ℕ} {buf : OrderedDict ℕ Bytes}
    (hopen : openBuffer t bufKey = some buf) (i : ℕ) (fragment : Bytes) :
    (fun j => (buf.set i fragment).get? j) =
      Function.update (content t bufKey) i (some fragment) := by
  funext j
  rw [OrderedDict.get?_set, Function.update_apply, get?_openBuffer hopen]
  simp only [eq_comm]

variable (C : Suite)

/-- The joined bytes are a signature and this message, and the signature verifies. -/
structure Accepts (verifyKey : Ed25519VerifyKey) (assembled message : Bytes) : Prop where
  size : sigSize ≤ assembled.length
  plaintext : assembled.drop sigSize = message
  signed : C.verifySignature message (assembled.take sigSize) verifyKey = .ok ()

theorem message_deliverAssembled (env : Env) (t : MeshTransport) (session : SessionInfo)
    (peerId : String) (addr : Addr) (msgId : ℕ) (assembled : Bytes) (cb : Callback) (message : Bytes) :
    .message cb peerId message ∈
        (deliverAssembled C env t session peerId addr msgId assembled).effects ↔
      cb ∈ t.messageCbs ∧ Accepts C session.peerBundle.verifyKey assembled message := by
  have hack := buildPacket_keyed C .ack t.senderId (packBE 4 msgId) session.sessionKey rfl
    (by rw [packBE_length]; decide)
  unfold deliverAssembled
  by_cases hsize : assembled.length < sigSize
  · rw [if_pos hsize]
    refine iff_of_false List.not_mem_nil fun h => ?_
    exact absurd h.2.size (Nat.not_le.mpr hsize)
  · rw [if_neg hsize]
    dsimp only
    cases hverify : C.verifySignature (assembled.drop sigSize) (assembled.take sigSize)
        session.peerBundle.verifyKey with
    | error e =>
      have hnot : ¬ Accepts C session.peerBundle.verifyKey assembled message := by
        rintro ⟨_, rfl, hsigned⟩
        cases hverify.symm.trans hsigned
      cases e <;> exact iff_of_false List.not_mem_nil fun h => hnot h.2
    | ok u =>
      simp only [attempt, hack, List.mem_append, List.mem_map]
      constructor
      · rintro (hsent | ⟨cb', hcb, heq⟩)
        · cases mem_sendRaw t _ addr _ hsent
        · cases heq
          exact ⟨hcb, Nat.not_lt.mp hsize, rfl, hverify⟩
      · rintro ⟨hcb, _, rfl, _⟩
        exact Or.inr ⟨cb, hcb, rfl⟩

/-- A fragment that completes the range empties the buffer, and what was in it is joined. -/
theorem store_covered (env : Env) (t : MeshTransport) (session : SessionInfo) (peerId : String)
    (addr : Addr) (msgId fragIdx fragTotal : ℕ) (fragment : Bytes)
    (hopen : openBuffer t (peerId, msgId) ≠ none)
    (h : Covered (Function.update (content t (peerId, msgId)) fragIdx (some fragment)) fragTotal) :
    let out := storeFragment C env t session peerId addr msgId fragIdx fragTotal fragment
    out.state.fragBufs.get? (peerId, msgId) = none ∧
    ∀ cb message, .message cb peerId message ∈ out.effects ↔ cb ∈ t.messageCbs ∧
      Accepts C session.peerBundle.verifyKey
        (joined (Function.update (content t (peerId, msgId)) fragIdx (some fragment)) fragTotal)
        message := by
  obtain ⟨buf, hbuf⟩ := Option.ne_none_iff_exists'.mp hopen
  have hheld := set_openBuffer hbuf fragIdx fragment
  rw [← hheld] at h ⊢
  have hsize := size_of_covered (buf.set fragIdx fragment) fragTotal h
  simp only [storeFragment, hbuf, if_neg (Nat.not_lt.mpr hsize), attempt,
    joinFragments_covered (buf.set fragIdx fragment) fragTotal h, fragBufs_deliverAssembled]
  refine ⟨OrderedDict.get?_erase_self _ _, fun cb message => ?_⟩
  exact message_deliverAssembled C env _ session peerId addr msgId _ cb message

/-- Any other fragment stays in the buffer, and nothing comes of it yet. -/
theorem store_uncovered (env : Env) (t : MeshTransport) (session : SessionInfo) (peerId : String)
    (addr : Addr) (msgId fragIdx fragTotal : ℕ) (fragment : Bytes)
    (hopen : openBuffer t (peerId, msgId) ≠ none)
    (h : ¬ Covered (Function.update (content t (peerId, msgId)) fragIdx (some fragment)) fragTotal) :
    let out := storeFragment C env t session peerId addr msgId fragIdx fragTotal fragment
    out.state.fragBufs.get? (peerId, msgId) ≠ none ∧
    content out.state (peerId, msgId) =
      Function.update (content t (peerId, msgId)) fragIdx (some fragment) ∧
    out.effects = [] := by
  obtain ⟨buf, hbuf⟩ := Option.ne_none_iff_exists'.mp hopen
  have hheld := set_openBuffer hbuf fragIdx fragment
  have hstored : content { t with
      fragBufs := t.fragBufs.set (peerId, msgId) (buf.set fragIdx fragment) } (peerId, msgId) =
      Function.update (content t (peerId, msgId)) fragIdx (some fragment) := by
    rw [← hheld]
    funext j
    simp only [content, OrderedDict.get?_set_self, Option.bind_some]
  rw [← hheld] at h
  have hjoin := joinFragments_uncovered (buf.set fragIdx fragment) fragTotal h
  have hsome : (t.fragBufs.set (peerId, msgId) (buf.set fragIdx fragment)).get? (peerId, msgId) ≠
      none := by
    rw [OrderedDict.get?_set_self]
    exact Option.some_ne_none _
  by_cases hsize : (buf.set fragIdx fragment).size < fragTotal
  · simp only [storeFragment, hbuf, if_pos hsize]
    exact ⟨hsome, hstored, rfl⟩
  · simp only [storeFragment, hbuf, if_neg hsize, attempt, hjoin]
    exact ⟨hsome, hstored, rfl⟩

end Content

section Arrivals

variable (C : Suite)

/-- The packets of the message with these indices arrive in this order, each once, between
MESSAGE packets of other peers or other messages. -/
inductive Arriving (x : Sending) (addr : Addr) (t : MeshTransport) (bufKey : String × ℕ) :
    List ℕ → List Arrival → Prop
  | nil : Arriving x addr t bufKey [] []
  | packet (i : ℕ) (a : Arrival) (order : List ℕ) (arrivals : List Arrival)
      (hpacket : PacketOf C x addr i a) (hrest : Arriving x addr t bufKey order arrivals) :
      Arriving x addr t bufKey (i :: order) (a :: arrivals)
  | foreign (a : Arrival) (order : List ℕ) (arrivals : List Arrival)
      (hforeign : Foreign t bufKey a) (hrest : Arriving x addr t bufKey order arrivals) :
      Arriving x addr t bufKey order (a :: arrivals)

/-- Some packet of the message makes the callback fire with it. -/
def Delivered (x : Sending) (addr : Addr) (peerId : String) (message : Bytes) (cb : Callback)
    (t : MeshTransport) (arrivals : List Arrival) : Prop :=
  ∃ done a rest, arrivals = done ++ a :: rest ∧ (∃ i, PacketOf C x addr i a) ∧
    .message cb peerId message ∈ caused C (after C t done) a

/-- The buffer when these fragments have arrived and the others are what was there before. -/
def overlay (left : ℕ → Option Bytes) (chunks : List Bytes) (arrived : List ℕ) (j : ℕ) :
    Option Bytes :=
  if j ∈ arrived then chunks[j]? else left j

theorem update_overlay (left : ℕ → Option Bytes) (chunks : List Bytes) (arrived : List ℕ) (i : ℕ)
    (chunk : Bytes) (hchunk : chunks[i]? = some chunk) :
    Function.update (overlay left chunks arrived) i (some chunk) =
      overlay left chunks (arrived ++ [i]) := by
  funext j
  rw [Function.update_apply, overlay, overlay]
  by_cases hj : j = i
  · subst j
    rw [if_pos rfl, if_pos (by simp), hchunk]
  · rw [if_neg hj]
    simp only [List.mem_append, List.mem_singleton, hj, or_false]

theorem delivered_cons {x : Sending} {addr : Addr} {peerId : String} {message : Bytes} {cb : Callback}
    {t : MeshTransport} {a : Arrival} {arrivals : List Arrival} :
    Delivered C x addr peerId message cb t (a :: arrivals) ↔
      ((∃ i, PacketOf C x addr i a) ∧ .message cb peerId message ∈ caused C t a) ∨
        Delivered C x addr peerId message cb (receive C t a) arrivals := by
  constructor
  · rintro ⟨done, b, rest, heq, hpacket, hcaused⟩
    cases done with
    | nil =>
      cases heq
      exact Or.inl ⟨hpacket, hcaused⟩
    | cons c done =>
      cases heq
      exact Or.inr ⟨done, b, rest, rfl, hpacket, hcaused⟩
  · rintro (⟨hpacket, hcaused⟩ | ⟨done, b, rest, rfl, hpacket, hcaused⟩)
    · exact ⟨[], a, arrivals, rfl, hpacket, hcaused⟩
    · exact ⟨a :: done, b, rest, rfl, hpacket, hcaused⟩

theorem not_delivered_nil {x : Sending} {addr : Addr} {peerId : String} {message : Bytes}
    {cb : Callback} {t : MeshTransport} : ¬ Delivered C x addr peerId message cb t [] := by
  rintro ⟨done, a, rest, heq, _⟩
  exact absurd heq.symm (by simp)

variable {C} {t t' : MeshTransport} {addr : Addr} {peerId : String} {session : SessionInfo}
  {x : Sending} {message : Bytes}

/-- One packet of the message: what it leaves in the buffer, and when it delivers. -/
structure PacketStep (C : Suite) (t : MeshTransport) (addr : Addr) (peerId : String)
    (session : SessionInfo) (x : Sending) (message : Bytes) (t' : MeshTransport) (i : ℕ)
    (chunk : Bytes) (a : Arrival) : Prop where
  same : SameHandshakes t (receive C t' a)
  full : openBuffer t' (peerId, x.msgId) = none → receive C t' a = t' ∧ caused C t' a = []
  covered : openBuffer t' (peerId, x.msgId) ≠ none →
    Covered (Function.update (content t' (peerId, x.msgId)) i (some chunk)) x.total →
      (receive C t' a).fragBufs.get? (peerId, x.msgId) = none ∧
      ∀ cb, .message cb peerId message ∈ caused C t' a ↔ cb ∈ t.messageCbs ∧
        Accepts C session.peerBundle.verifyKey
          (joined (Function.update (content t' (peerId, x.msgId)) i (some chunk)) x.total) message
  uncovered : openBuffer t' (peerId, x.msgId) ≠ none →
    ¬ Covered (Function.update (content t' (peerId, x.msgId)) i (some chunk)) x.total →
      (receive C t' a).fragBufs.get? (peerId, x.msgId) ≠ none ∧
      content (receive C t' a) (peerId, x.msgId) =
        Function.update (content t' (peerId, x.msgId)) i (some chunk) ∧
      caused C t' a = []

theorem packetStep (haead : C.AeadCorrect) (h : Reception C t addr peerId session x message)
    (hsame : SameHandshakes t t') {i : ℕ} {a : Arrival} (ha : PacketOf C x addr i a) :
    ∃ chunk, x.chunks[i]? = some chunk ∧ PacketStep C t addr peerId session x message t' i chunk a := by
  have hmessage : IsMessage a.data := ha.isMessage C h.genuine.sendable
  obtain ⟨haddr, chunk, hchunk, hdata⟩ := ha
  obtain ⟨s, hholds, hkey, hbundle⟩ := holds_of_same h.holds hsame
  have hdispatch := dispatch_packet C haead a.env hholds x (hkey.trans h.key) h.genuine.sendable i
    chunk hchunk
  rw [← hdata, ← haddr] at hdispatch
  obtain ⟨hstate, heffects⟩ := hdispatch
  have hreceive : receive C t' a =
      (storeFragment C a.env t' s peerId a.addr x.msgId i x.total chunk).state := hstate
  have hcaused : caused C t' a =
      (storeFragment C a.env t' s peerId a.addr x.msgId i x.total chunk).effects := heffects
  refine ⟨chunk, hchunk, receive_same C hsame a hmessage, fun hfull => ?_, fun hopen hcovered => ?_,
    fun hopen huncovered => ?_⟩
  · rw [hreceive, hcaused]
    simp only [storeFragment, hfull]
    exact ⟨rfl, rfl⟩
  · rw [hreceive, hcaused]
    obtain ⟨hnone, hdeliver⟩ := store_covered C a.env t' s peerId a.addr x.msgId i x.total chunk hopen
      hcovered
    refine ⟨hnone, fun cb => ?_⟩
    rw [hdeliver cb message, hsame.messageCbs, hbundle]
  · rw [hreceive, hcaused]
    exact store_uncovered C a.env t' s peerId a.addr x.msgId i x.total chunk hopen huncovered

theorem foreign_content (hsame : SameHandshakes t t') {a : Arrival} {bufKey : String × ℕ}
    (ha : Foreign t bufKey a) :
    (receive C t' a).fragBufs.get? bufKey = t'.fragBufs.get? bufKey := by
  apply fragBufs_dispatch C a.env t' a.data a.addr _
  rw [about_of_same hsame]
  exact ha.2

theorem not_packet_of_foreign (h : Reception C t addr peerId session x message) {a : Arrival}
    (ha : Foreign t (peerId, x.msgId) a) : ¬ ∃ i, PacketOf C x addr i a := by
  rintro ⟨i, hpacket⟩
  exact ha.2 (about_packet C h i a hpacket)

/-- While an index is missing and does not arrive, nothing is delivered. -/
theorem absent_run (haead : C.AeadCorrect) (h : Reception C t addr peerId session x message)
    (cb : Callback) (m : ℕ) (hm : m < x.total) {order : List ℕ} {arrivals : List Arrival}
    (harriving : Arriving C x addr t (peerId, x.msgId) order arrivals) (hnot : m ∉ order)
    (hsame : SameHandshakes t t') (habsent : content t' (peerId, x.msgId) m = none) :
    ¬ Delivered C x addr peerId message cb t' arrivals := by
  induction harriving generalizing t' with
  | nil => exact not_delivered_nil C
  | packet i a order arrivals hpacket hrest ih =>
    obtain ⟨hne, hnot⟩ : m ≠ i ∧ m ∉ order := by simpa using hnot
    obtain ⟨chunk, _, hstep⟩ := packetStep haead h hsame hpacket
    have hkept : Function.update (content t' (peerId, x.msgId)) i (some chunk) m = none := by
      rw [Function.update_of_ne hne]
      exact habsent
    have huncovered : ¬ Covered (Function.update (content t' (peerId, x.msgId)) i (some chunk))
        x.total := fun hcovered => hcovered m hm hkept
    rw [delivered_cons]
    by_cases hopen : openBuffer t' (peerId, x.msgId) = none
    · obtain ⟨hstate, hsilent⟩ := hstep.full hopen
      rw [hsilent, hstate]
      rintro (⟨_, hmem⟩ | hlater)
      · exact List.not_mem_nil hmem
      · exact ih hnot hsame habsent hlater
    · obtain ⟨_, hcontent, hsilent⟩ := hstep.uncovered hopen huncovered
      rw [hsilent]
      rintro (⟨_, hmem⟩ | hlater)
      · exact List.not_mem_nil hmem
      · exact ih hnot hstep.same (by rw [hcontent]; exact hkept) hlater
  | foreign a order arrivals hforeign hrest ih =>
    rw [delivered_cons]
    rintro (⟨hpacket, _⟩ | hlater)
    · exact not_packet_of_foreign h hforeign hpacket
    · refine ih hnot (receive_same C hsame a hforeign.1) ?_ hlater
      rw [content, foreign_content hsame hforeign]
      exact habsent

/-- The shortest part of what is to come, but not empty, after which every index is present. -/
structure FirstCover (left : ℕ → Option Bytes) (chunks : List Bytes) (total : ℕ)
    (arrived todo p : List ℕ) : Prop where
  nonempty : p ≠ []
  initial : p <+: todo
  covered : Covered (overlay left chunks (arrived ++ p)) total
  first : ∀ q, q ≠ [] → q <+: todo → q.length < p.length →
    ¬ Covered (overlay left chunks (arrived ++ q)) total

variable {left : ℕ → Option Bytes} {chunks : List Bytes} {total : ℕ} {arrived order p : List ℕ} {i : ℕ}

theorem firstCover_now (hnow : Covered (overlay left chunks (arrived ++ [i])) total) :
    FirstCover left chunks total arrived (i :: order) p ↔ p = [i] := by
  constructor
  · intro hfirst
    obtain ⟨j, p', rfl⟩ := List.exists_cons_of_ne_nil hfirst.nonempty
    obtain ⟨rfl, _⟩ := List.cons_prefix_cons.mp hfirst.initial
    cases p' with
    | nil => rfl
    | cons k p' =>
      refine absurd hnow (hfirst.first [j] (by simp) ?_ (by simp))
      exact List.cons_prefix_cons.mpr ⟨rfl, List.nil_prefix⟩
  · rintro rfl
    refine ⟨by simp, List.cons_prefix_cons.mpr ⟨rfl, List.nil_prefix⟩, hnow, fun q hq _ hlt => ?_⟩
    obtain ⟨j, q', rfl⟩ := List.exists_cons_of_ne_nil hq
    simp at hlt

theorem firstCover_later (hnot : ¬ Covered (overlay left chunks (arrived ++ [i])) total) :
    FirstCover left chunks total arrived (i :: order) p ↔
      ∃ p', p = i :: p' ∧ FirstCover left chunks total (arrived ++ [i]) order p' := by
  have happend : ∀ q, overlay left chunks (arrived ++ [i] ++ q) =
      overlay left chunks (arrived ++ i :: q) := by
    intro q
    rw [List.append_assoc, List.singleton_append]
  constructor
  · intro hfirst
    obtain ⟨j, p', rfl⟩ := List.exists_cons_of_ne_nil hfirst.nonempty
    obtain ⟨rfl, hinitial⟩ := List.cons_prefix_cons.mp hfirst.initial
    refine ⟨p', rfl, ?_, hinitial, ?_, fun q hq hq' hlt => ?_⟩
    · rintro rfl
      exact hnot hfirst.covered
    · rw [happend]
      exact hfirst.covered
    · rw [happend]
      apply hfirst.first (j :: q) (by simp) (List.cons_prefix_cons.mpr ⟨rfl, hq'⟩)
      simpa using hlt
  · rintro ⟨p', rfl, hfirst⟩
    refine ⟨by simp, List.cons_prefix_cons.mpr ⟨rfl, hfirst.initial⟩, ?_, fun q hq hq' hlt => ?_⟩
    · rw [← happend]
      exact hfirst.covered
    · obtain ⟨j, q', rfl⟩ := List.exists_cons_of_ne_nil hq
      obtain ⟨rfl, hinitial⟩ := List.cons_prefix_cons.mp hq'
      cases q' with
      | nil => exact hnot
      | cons k q' =>
        rw [← happend]
        exact hfirst.first (k :: q') (by simp) hinitial (by simpa using hlt)

/-- What there is to join when every index is first present is this message, signed. -/
def StandsFor (C : Suite) (verifyKey : Ed25519VerifyKey) (message : Bytes)
    (left : ℕ → Option Bytes) (chunks : List Bytes) (total : ℕ) (arrived todo : List ℕ) : Prop :=
  ∃ p, FirstCover left chunks total arrived todo p ∧
    Accepts C verifyKey (joined (overlay left chunks (arrived ++ p)) total) message

/-- One packet while the buffer is open: it completes the range, or the rest decides. -/
theorem delivered_packet (haead : C.AeadCorrect) (h : Reception C t addr peerId session x message)
    (cb : Callback) (hcb : cb ∈ t.messageCbs) {a : Arrival} {arrivals : List Arrival}
    (hpacket : PacketOf C x addr i a) (hrest : Arriving C x addr t (peerId, x.msgId) order arrivals)
    (hnodup : (i :: order).Nodup) (hsame : SameHandshakes t t')
    (hopen : openBuffer t' (peerId, x.msgId) ≠ none)
    (hcontent : content t' (peerId, x.msgId) = overlay left x.chunks arrived)
    (ih : ∀ t'', SameHandshakes t t'' → t''.fragBufs.get? (peerId, x.msgId) ≠ none →
      content t'' (peerId, x.msgId) = overlay left x.chunks (arrived ++ [i]) →
      (Delivered C x addr peerId message cb t'' arrivals ↔
        StandsFor C session.peerBundle.verifyKey message left x.chunks x.total (arrived ++ [i])
          order)) :
    Delivered C x addr peerId message cb t' (a :: arrivals) ↔
      StandsFor C session.peerBundle.verifyKey message left x.chunks x.total arrived (i :: order) := by
  obtain ⟨chunk, hchunk, hstep⟩ := packetStep haead h hsame hpacket
  have hupdate : Function.update (content t' (peerId, x.msgId)) i (some chunk) =
      overlay left x.chunks (arrived ++ [i]) := by
    rw [hcontent]
    exact update_overlay left x.chunks arrived i chunk hchunk
  have hi : i < x.total := (List.getElem?_eq_some_iff.mp hchunk).1
  rw [delivered_cons]
  by_cases hcovered : Covered (overlay left x.chunks (arrived ++ [i])) x.total
  · -- the range is complete: the buffer is emptied, and index i does not come again
    obtain ⟨hnone, hdeliver⟩ := hstep.covered hopen (by rw [hupdate]; exact hcovered)
    have hlater : ¬ Delivered C x addr peerId message cb (receive C t' a) arrivals := by
      apply absent_run haead h cb i hi hrest (List.nodup_cons.mp hnodup).1 hstep.same
      rw [content, hnone]
      rfl
    rw [hdeliver cb, hupdate]
    constructor
    · rintro (⟨_, _, haccepts⟩ | habsurd)
      · exact ⟨[i], (firstCover_now hcovered).mpr rfl, haccepts⟩
      · exact absurd habsurd hlater
    · rintro ⟨p, hfirst, haccepts⟩
      obtain rfl := (firstCover_now hcovered).mp hfirst
      exact Or.inl ⟨⟨i, hpacket⟩, hcb, haccepts⟩
  · obtain ⟨hpresent, hcontent', hsilent⟩ := hstep.uncovered hopen (by rw [hupdate]; exact hcovered)
    rw [hsilent, ih (receive C t' a) hstep.same hpresent (hcontent'.trans hupdate)]
    constructor
    · rintro (⟨_, hmem⟩ | ⟨p, hfirst, haccepts⟩)
      · exact absurd hmem List.not_mem_nil
      · refine ⟨i :: p, (firstCover_later hcovered).mpr ⟨p, rfl, hfirst⟩, ?_⟩
        rw [List.append_assoc] at haccepts
        exact haccepts
    · rintro ⟨p, hfirst, haccepts⟩
      obtain ⟨p', rfl, hfirst'⟩ := (firstCover_later hcovered).mp hfirst
      refine Or.inr ⟨p', hfirst', ?_⟩
      rw [List.append_assoc]
      exact haccepts

/-- From a state in which the message has a buffer, only what stands in it and comes to it matters. -/
theorem delivered_run (haead : C.AeadCorrect) (h : Reception C t addr peerId session x message)
    (cb : Callback) (hcb : cb ∈ t.messageCbs) {arrivals : List Arrival}
    (harriving : Arriving C x addr t (peerId, x.msgId) order arrivals) (hnodup : order.Nodup)
    (hsame : SameHandshakes t t') (hpresent : t'.fragBufs.get? (peerId, x.msgId) ≠ none)
    (hcontent : content t' (peerId, x.msgId) = overlay left x.chunks arrived) :
    Delivered C x addr peerId message cb t' arrivals ↔
      StandsFor C session.peerBundle.verifyKey message left x.chunks x.total arrived order := by
  induction harriving generalizing t' arrived with
  | nil =>
    apply iff_of_false (not_delivered_nil C)
    rintro ⟨p, hfirst, _⟩
    exact hfirst.nonempty (List.prefix_nil.mp hfirst.initial)
  | packet i a order arrivals hpacket hrest ih =>
    have hopen : openBuffer t' (peerId, x.msgId) ≠ none := by
      obtain ⟨buf, hbuf⟩ := Option.ne_none_iff_exists'.mp hpresent
      simp only [openBuffer, hbuf]
      exact Option.some_ne_none buf
    exact delivered_packet haead h cb hcb hpacket hrest hnodup hsame hopen hcontent
      fun t'' hsame' hpresent' hcontent' =>
        ih (List.nodup_cons.mp hnodup).2 hsame' hpresent' hcontent'
  | foreign a order arrivals hforeign hrest ih =>
    have hget := foreign_content (C := C) hsame hforeign
    have hkept : content (receive C t' a) (peerId, x.msgId) = overlay left x.chunks arrived :=
      (content_congr hget).trans hcontent
    rw [delivered_cons, ← ih hnodup (receive_same C hsame a hforeign.1) (by rw [hget]; exact hpresent)
      hkept]
    exact or_iff_right fun hnow => not_packet_of_foreign h hforeign hnow.1

end Arrivals

section Isolation

theorem joined_overlay (left : ℕ → Option Bytes) (chunks : List Bytes) (arrived : List ℕ) (total : ℕ)
    (htotal : total ≤ chunks.length) (h : ∀ j < total, j ∈ arrived) :
    joined (overlay left chunks arrived) total = (chunks.take total).flatten := by
  induction total with
  | zero => rfl
  | succ total ih =>
    have hbefore := ih (Nat.le_of_succ_le htotal) fun j hj => h j (Nat.lt_succ_of_lt hj)
    have hlast : overlay left chunks arrived total = some (chunks.get ⟨total, htotal⟩) := by
      rw [overlay, if_pos (h total (Nat.lt_succ_self total))]
      exact List.getElem?_eq_getElem htotal
    rw [joined, hbefore, hlast, List.take_succ_eq_append_getElem htotal, List.flatten_append,
      List.flatten_singleton]
    rfl

variable {C : Suite} {x : Sending} {message : Bytes} {verifyKey : Ed25519VerifyKey}

theorem accepts_chunks (h : Genuine C x message verifyKey) :
    Accepts C verifyKey x.chunks.flatten message := by
  obtain ⟨sig, hlen, hflatten, hsigned⟩ := h.signed
  rw [hflatten]
  refine ⟨?_, ?_, ?_⟩
  · rw [List.length_append, hlen]
    exact Nat.le_add_right _ _
  · rw [← hlen]
    exact List.drop_left
  · rw [← hlen, List.take_left]
    exact hsigned

/-- The buffer exists, or there is room for one more. -/
def HasRoom (t : MeshTransport) (bufKey : String × ℕ) : Prop :=
  t.fragBufs.get? bufKey ≠ none ∨ t.fragBufs.size < maxReassemblyBufs

theorem openBuffer_ne_none_iff (t : MeshTransport) (bufKey : String × ℕ) :
    openBuffer t bufKey ≠ none ↔ HasRoom t bufKey := by
  unfold HasRoom
  cases hget : t.fragBufs.get? bufKey with
  | some buf => simp [openBuffer, hget]
  | none =>
    by_cases hsize : t.fragBufs.size < maxReassemblyBufs
    · simp [openBuffer, hget, hsize, Nat.not_le.mpr hsize]
    · simp [openBuffer, hget, hsize, Nat.not_lt.mp hsize]

variable {left : ℕ → Option Bytes} {order : List ℕ} {last : ℕ}

/-- Leftovers stand in for some of the fragments, and with those that have come they are a
signature of this very message. -/
def StandIn (C : Suite) (verifyKey : Ed25519VerifyKey) (x : Sending) (message : Bytes)
    (left : ℕ → Option Bytes) (order : List ℕ) (last : ℕ) : Prop :=
  ∃ p, p <+: order ∧ FirstCover left x.chunks x.total [] (order ++ [last]) p ∧
    Accepts C verifyKey (joined (overlay left x.chunks p) x.total) message

theorem covered_all (hperm : (order ++ [last]).Perm (List.range x.total)) :
    Covered (overlay left x.chunks (order ++ [last])) x.total := by
  intro j hj
  rw [overlay, if_pos (hperm.mem_iff.mpr (List.mem_range.mpr hj)), List.getElem?_eq_getElem hj]
  exact Option.some_ne_none _

/-- Without the last index the range is covered only by a leftover there. -/
theorem covered_before_iff (hperm : (order ++ [last]).Perm (List.range x.total)) :
    Covered (overlay left x.chunks order) x.total ↔ left last ≠ none := by
  have hlast : last < x.total := List.mem_range.mp (hperm.mem_iff.mp (by simp))
  have hnot : last ∉ order := by
    have hnodup := hperm.nodup_iff.mpr List.nodup_range
    exact fun hmem => (List.nodup_append.mp hnodup).2.2 last hmem last (by simp) rfl
  constructor
  · intro hcovered
    have hpresent := hcovered last hlast
    rwa [overlay, if_neg hnot] at hpresent
  · intro hleft j hj
    by_cases hmem : j ∈ order
    · rw [overlay, if_pos hmem, List.getElem?_eq_getElem hj]
      exact Option.some_ne_none _
    · have hmem' := hperm.mem_iff.mpr (List.mem_range.mpr hj)
      obtain rfl : j = last := by simpa [hmem] using hmem'
      rwa [overlay, if_neg hmem]

theorem overlay_mono {arrived arrived' : List ℕ} {chunks : List Bytes} {total : ℕ}
    (hlen : total ≤ chunks.length) (hsub : arrived ⊆ arrived')
    (h : Covered (overlay left chunks arrived) total) : Covered (overlay left chunks arrived') total := by
  intro j hj
  by_cases hmem : j ∈ arrived'
  · rw [overlay, if_pos hmem, List.getElem?_eq_getElem (Nat.lt_of_lt_of_le hj hlen)]
    exact Option.some_ne_none _
  · have hpresent := h j hj
    rw [overlay, if_neg fun hin => hmem (hsub hin)] at hpresent
    rwa [overlay, if_neg hmem]

/-- The whole order is the first to cover the range unless a leftover stands in for its end. -/
theorem firstCover_all (hperm : (order ++ [last]).Perm (List.range x.total))
    (h : x.total = 1 ∨ left last = none) :
    FirstCover left x.chunks x.total [] (order ++ [last]) (order ++ [last]) := by
  refine ⟨by simp, List.prefix_rfl, covered_all hperm, fun q hq hinitial hlt hcovered => ?_⟩
  have hbefore : q <+: order := by
    rcases List.prefix_concat_iff.mp hinitial with rfl | hbefore
    · exact absurd hlt (lt_irrefl _)
    · exact hbefore
  rcases h with hone | hnone
  · have hlen : order.length = 0 := by
      have := hperm.length_eq
      rw [List.length_append, List.length_singleton, List.length_range, hone] at this
      omega
    rw [List.length_eq_zero_iff.mp hlen] at hbefore
    exact hq (List.prefix_nil.mp hbefore)
  · refine (covered_before_iff hperm).mp ?_ hnone
    exact overlay_mono le_rfl hbefore.subset hcovered

theorem standsFor_iff (h : Genuine C x message verifyKey)
    (hperm : (order ++ [last]).Perm (List.range x.total)) :
    StandsFor C verifyKey message left x.chunks x.total [] (order ++ [last]) ↔
      x.total = 1 ∨ left last = none ∨ StandIn C verifyKey x message left order last := by
  constructor
  · rintro ⟨p, hfirst, haccepts⟩
    rcases List.prefix_concat_iff.mp hfirst.initial with rfl | hbefore
    · -- nothing shorter covers the range, so either no index comes before the last or it was missing
      by_cases hleft : left last = none
      · exact Or.inr (Or.inl hleft)
      · apply Or.inl
        have hcovered := (covered_before_iff hperm).mpr hleft
        have hnil : order = [] := by
          by_contra hne
          exact hfirst.first order hne (List.prefix_append order [last]) (by simp) hcovered
        have hlen := hperm.length_eq
        rw [hnil, List.length_range] at hlen
        exact hlen.symm
    · exact Or.inr (Or.inr ⟨p, hbefore, hfirst, haccepts⟩)
  · have hwhole : (x.total = 1 ∨ left last = none) →
        StandsFor C verifyKey message left x.chunks x.total [] (order ++ [last]) := by
      intro hcase
      refine ⟨order ++ [last], firstCover_all hperm hcase, ?_⟩
      rw [List.nil_append, joined_overlay left x.chunks _ x.total le_rfl
        fun j hj => hperm.mem_iff.mpr (List.mem_range.mpr hj), Sending.total, List.take_length]
      exact accepts_chunks h
    rintro (hone | hnone | ⟨p, _, hfirst, haccepts⟩)
    · exact hwhole (Or.inl hone)
    · exact hwhole (Or.inr hnone)
    · exact ⟨p, hfirst, haccepts⟩

theorem delivered_iff (haead : C.AeadCorrect) {t : MeshTransport} {addr : Addr} {peerId : String}
    {session : SessionInfo} (h : Reception C t addr peerId session x message)
    (hperm : (order ++ [last]).Perm (List.range x.total)) {first : Arrival} {arrivals : List Arrival}
    (hfirst : ∃ i, PacketOf C x addr i first)
    (harriving : Arriving C x addr t (peerId, x.msgId) (order ++ [last]) (first :: arrivals))
    (cb : Callback) (hcb : cb ∈ t.messageCbs) :
    Delivered C x addr peerId message cb t (first :: arrivals) ↔
      HasRoom t (peerId, x.msgId) ∧ (x.total = 1 ∨ content t (peerId, x.msgId) last = none ∨
        StandIn C session.peerBundle.verifyKey x message (content t (peerId, x.msgId)) order
          last) := by
  rw [← standsFor_iff h.genuine hperm, ← openBuffer_ne_none_iff]
  have hnodup := hperm.nodup_iff.mpr List.nodup_range
  generalize order ++ [last] = todo at hperm harriving hnodup
  cases harriving with
  | foreign _ _ _ hforeign _ => exact absurd hfirst (not_packet_of_foreign h hforeign)
  | packet i _ todo _ hpacket hrest =>
    by_cases hopen : openBuffer t (peerId, x.msgId) = none
    · -- the first fragment is lost, and none of the others can replace it
      refine iff_of_false ?_ fun hboth => hboth.1 hopen
      obtain ⟨chunk, hchunk, hstep⟩ := packetStep haead h (.refl t) hpacket
      obtain ⟨hstate, hsilent⟩ := hstep.full hopen
      have hi : i < x.total := (List.getElem?_eq_some_iff.mp hchunk).1
      have habsent : content t (peerId, x.msgId) i = none := by
        cases hget : t.fragBufs.get? (peerId, x.msgId) with
        | none => simp only [content, hget, Option.bind_none]
        | some buf =>
          refine absurd hopen ((openBuffer_ne_none_iff t _).mpr (Or.inl ?_))
          rw [hget]
          exact Option.some_ne_none buf
      rw [delivered_cons, hsilent, hstate]
      rintro (⟨_, hmem⟩ | hlater)
      · exact List.not_mem_nil hmem
      · exact absent_run haead h cb i hi hrest (List.nodup_cons.mp hnodup).1 (.refl t) habsent hlater
    · have hcontent : content t (peerId, x.msgId) =
          overlay (content t (peerId, x.msgId)) x.chunks [] := by
        funext j
        simp [overlay]
      have hdecided := delivered_packet haead h cb hcb hpacket hrest hnodup (.refl t) hopen hcontent
        fun t'' hsame hpresent hcontent' => delivered_run haead h cb hcb hrest
          (List.nodup_cons.mp hnodup).2 hsame hpresent hcontent'
      exact hdecided.trans (and_iff_right hopen).symm

/-- All packets of a new message come, once each. It is delivered exactly when there is a buffer
for it, and no fragment left in that buffer stands in for the one that comes last, unless
the leftovers make up the same message. -/
theorem delivered_iff_not_replaced (haead : C.AeadCorrect) (ts tr : MeshTransport)
    (pid peerId : String) (ss sr : SessionInfo) (addr : Addr) (env : Env) (message : Bytes)
    (hsign : C.SignCorrect ts.identity.signingKeypair) (hsession : ts.sessions.get? pid = some ss)
    (hholds : Holds tr addr peerId sr) (hkey : sr.sessionKey = ss.sessionKey)
    (hverify : sr.peerBundle.verifyKey = ts.identity.signingKeypair.verifyKey)
    (hsent : (send C env ts pid message).raised = none) (order : List ℕ) (last : ℕ)
    (hperm : (order ++ [last]).Perm (List.range (sending C env ts ss.sessionKey message).total))
    (first : Arrival) (arrivals : List Arrival)
    (hfirst : ∃ i, PacketOf C (sending C env ts ss.sessionKey message) addr i first)
    (harriving : Arriving C (sending C env ts ss.sessionKey message) addr tr
      (peerId, ts.msgIdCounter) (order ++ [last]) (first :: arrivals))
    (cb : Callback) (hcb : cb ∈ tr.messageCbs) :
    Delivered C (sending C env ts ss.sessionKey message) addr peerId message cb tr
        (first :: arrivals) ↔
      HasRoom tr (peerId, ts.msgIdCounter) ∧
        ((sending C env ts ss.sessionKey message).total = 1 ∨
          content tr (peerId, ts.msgIdCounter) last = none ∨
          StandIn C sr.peerBundle.verifyKey (sending C env ts ss.sessionKey message) message
            (content tr (peerId, ts.msgIdCounter)) order last) := by
  have hsendable := (send_ok C env ts pid message ss hsession hsent).1
  have hgenuine : Genuine C (sending C env ts ss.sessionKey message) message
      sr.peerBundle.verifyKey := by
    rw [hverify]
    exact genuine_sending C env ts ss.sessionKey message hsign hsendable
  exact delivered_iff haead ⟨hholds, hkey, hgenuine⟩ hperm hfirst harriving cb hcb

end Isolation

section Stub

/-- Another message of two fragments. -/
def newMessage : Bytes := List.replicate 2000 1

theorem chunks_pair (env : Env) (t : MeshTransport) (key : SessionKey) (message : Bytes)
    (hlen : message.length = 2000) : ∃ front back,
    (sending stub env t key message).chunks = [front, back] ∧
      front.drop sigSize = message.take (maxFragPt - sigSize) := by
  let sig := (stub.signMessage message t.identity.signingKeypair.signingKey).toList
  have hsig : sig.length = sigSize := List.Vector.toList_length _
  have hwhole : (sig ++ message).length = 2064 := by rw [List.length_append, hsig, hlen]
  refine ⟨_, _, splitFragments_pair (sig ++ message) (by rw [hwhole]; decide)
    (by rw [hwhole]; decide), ?_⟩
  rw [List.drop_take, ← hsig, List.drop_left]

/-- The first fragment of a message of the process before stays at bravo's, and alpha's new
process has made a session and is about to send. -/
structure LeftBehind (a b : Node) (sa sb : SessionInfo) (old : Bytes) : Prop where
  sender : Reachable stub alpha a
  receiver : Reachable stub bravo b
  session : a.transport.sessions.get? "bravo" = some sa
  reception : Reception stub b.transport alphaAddr "alpha" sb
    (sending stub stillEnv a.transport sa.sessionKey newMessage) newMessage
  verifyKey : sb.peerBundle.verifyKey = a.transport.identity.signingKeypair.verifyKey
  identity : a.transport.identity = alpha
  first : a.transport.msgIdCounter = 1
  callbacks : b.transport.messageCbs = [0]
  present : b.transport.fragBufs.get? ("alpha", 1) ≠ none
  held : content b.transport ("alpha", 1) = Function.update (fun _ => none) 0 (some old)
  old : old.drop sigSize = longMessage.take (maxFragPt - sigSize)

theorem exists_leftBehind : ∃ a b sa sb old, LeftBehind a b sa sb old := by
  obtain ⟨a, b, sa, sb, hreachA, hreachB, hholdsA, haddrA, hkeyA, hreception, hverify,
    ⟨ta, hta, _, _, hsameA⟩, ⟨tb, htb, hcbs, _, hsameB⟩⟩ := exists_reception [0] longMessage (by
      rw [longMessage, List.length_replicate]
      decide)
  have hcounter : a.transport.msgIdCounter = 1 := hsameA.msgIdCounter.trans hta.msgIdCounter
  have hidentity : a.transport.identity = alpha := hsameA.identity.trans hta.identity
  have hbufs : b.transport.fragBufs = .empty := hsameB.fragBufs.trans htb.fragBufs
  have hmessageCbs : b.transport.messageCbs = [0] := hsameB.messageCbs.trans hcbs
  let x := sending stub stillEnv a.transport sa.sessionKey longMessage
  obtain ⟨old, back, hchunks, hold⟩ := chunks_pair stillEnv a.transport sa.sessionKey longMessage
    (by rw [longMessage, List.length_replicate])
  have hchunk : x.chunks[0]? = some old := by rw [hchunks]; rfl
  have htotal : x.total = 2 := by rw [Sending.total, hchunks]; rfl
  let p : Arrival := ⟨stillEnv, x.packet stub 0 old, alphaAddr⟩
  have hp : PacketOf stub x alphaAddr 0 p := ⟨rfl, old, hchunk, rfl⟩
  -- the first fragment comes and waits for the second
  obtain ⟨chunk, hchunk', hstep⟩ := packetStep stub_aeadCorrect hreception (.refl b.transport) hp
  obtain rfl := Option.some.inj (hchunk.symm.trans hchunk')
  have hid : x.msgId = 1 := hcounter
  have hempty : content b.transport ("alpha", x.msgId) = fun _ => none := by
    funext j
    rw [content, hbufs]
    rfl
  have hroom : openBuffer b.transport ("alpha", x.msgId) ≠ none := by
    refine (openBuffer_ne_none_iff _ _).mpr (Or.inr ?_)
    rw [hbufs]
    decide
  obtain ⟨hpresent, hcontent, _⟩ := hstep.uncovered hroom (by
    intro hcovered
    apply hcovered 1 (by rw [htotal]; decide)
    rw [hempty, Function.update_of_ne (by decide)])
  -- alpha starts again and makes a new session
  let b₁ := nodeStep stub b (stillEnv, .datagram p.data p.addr)
  have hreachB₁ : Reachable stub bravo b₁ := hreachB.next _
  obtain ⟨wireA, _, _, hwireA⟩ := announced_wire stub alpha honest_alpha
  have hdecap := bravo_decapsulates b₁.transport.identity (reachable_device stub bravo b₁ hreachB₁).1
  obtain ⟨hest, hsame⟩ := node_announce_then_keyInit stub stillEnv stillEnv b₁ alphaAddr sid wireA
    (getPublicBundle stub alpha) _ sharedKey (reachable_wellFormed stub bravo b₁ hreachB₁) hwireA
    hdecap
  obtain ⟨sb', hholds', _, hkey', hbundle'⟩ := holds_of_established hest
  have hverify' : sb'.peerBundle.verifyKey = a.transport.identity.signingKeypair.verifyKey := by
    rw [hbundle', hidentity]
    rfl
  have hsendable : (sending stub stillEnv a.transport sa.sessionKey newMessage).Sendable := by
    rw [sendable_iff, hcounter]
    refine ⟨by decide, ?_⟩
    have := chunks_le_two stub stillEnv a.transport sa.sessionKey newMessage (by
      rw [newMessage, List.length_replicate]
      decide)
    omega
  have hsign : stub.SignCorrect a.transport.identity.signingKeypair := by
    rw [hidentity]
    exact honest_alpha.sign
  refine ⟨a, _, sa, sb', old, ⟨hreachA, hreachB₁.run _, hholdsA.session,
    ⟨hholds', hkey'.trans hkeyA.symm, ?_⟩, hverify', hidentity, hcounter, ?_, ?_, ?_, hold⟩⟩
  · rw [hverify']
    exact genuine_sending stub stillEnv a.transport sa.sessionKey newMessage hsign hsendable
  · exact hsame.messageCbs.trans ((nodeStep_sameDevice stub b _).messageCbs.trans hmessageCbs)
  · rw [hsame.fragBufs, ← hid]
    exact hpresent
  · rw [content_congr (congrArg (fun bufs => bufs.get? ("alpha", 1)) hsame.fragBufs), ← hempty, ← hid]
    exact hcontent

/-- The fragment left behind is joined to the end of the new message, which is dropped. -/
theorem leftover_drops_message : ∃ (a b : Node) (sa sb : SessionInfo) (first second : Arrival),
    Reachable stub alpha a ∧ Reachable stub bravo b ∧
    a.transport.sessions.get? "bravo" = some sa ∧ Holds b.transport alphaAddr "alpha" sb ∧
    sb.sessionKey = sa.sessionKey ∧
    sb.peerBundle.verifyKey = a.transport.identity.signingKeypair.verifyKey ∧
    (send stub stillEnv a.transport "bravo" newMessage).raised = none ∧
    (sending stub stillEnv a.transport sa.sessionKey newMessage).total = 2 ∧
    PacketOf stub (sending stub stillEnv a.transport sa.sessionKey newMessage) alphaAddr 1 first ∧
    PacketOf stub (sending stub stillEnv a.transport sa.sessionKey newMessage) alphaAddr 0 second ∧
    b.transport.messageCbs = [0] ∧
    ¬ Delivered stub (sending stub stillEnv a.transport sa.sessionKey newMessage) alphaAddr "alpha"
      newMessage 0 b.transport [first, second] := by
  obtain ⟨a, b, sa, sb, old, h⟩ := exists_leftBehind
  let x := sending stub stillEnv a.transport sa.sessionKey newMessage
  obtain ⟨front, back, hchunks, _⟩ := chunks_pair stillEnv a.transport sa.sessionKey newMessage
    (by rw [newMessage, List.length_replicate])
  have h₀ : x.chunks[0]? = some front := by rw [hchunks]; rfl
  have h₁ : x.chunks[1]? = some back := by rw [hchunks]; rfl
  have htotal : x.total = 2 := by rw [Sending.total, hchunks]; rfl
  have hkey : ("alpha", x.msgId) = ("alpha", 1) := congrArg (Prod.mk "alpha") h.first
  let first : Arrival := ⟨stillEnv, x.packet stub 1 back, alphaAddr⟩
  let second : Arrival := ⟨stillEnv, x.packet stub 0 front, alphaAddr⟩
  have hfirst : PacketOf stub x alphaAddr 1 first := ⟨rfl, back, h₁, rfl⟩
  have hsecond : PacketOf stub x alphaAddr 0 second := ⟨rfl, front, h₀, rfl⟩
  refine ⟨a, b, sa, sb, first, second, h.sender, h.receiver, h.session, h.reception.holds,
    h.reception.key, h.verifyKey, (send_raised_iff stub stillEnv a.transport "bravo" newMessage sa
      h.session).mpr h.reception.genuine.sendable, htotal, hfirst, hsecond, h.callbacks, ?_⟩
  have hperm : ([1] ++ [0]).Perm (List.range x.total) := by
    rw [htotal]
    decide
  have harriving : Arriving stub x alphaAddr b.transport ("alpha", x.msgId) ([1] ++ [0])
      [first, second] := .packet 1 first [0] [second] hfirst (.packet 0 second [] [] hsecond .nil)
  rw [delivered_iff stub_aeadCorrect h.reception hperm ⟨1, hfirst⟩ harriving 0
    (by rw [h.callbacks]; simp), hkey, h.held]
  rintro ⟨_, hone | hnone | ⟨p, hbefore, hcover, haccepts⟩⟩
  · rw [htotal] at hone
    omega
  · rw [Function.update_self] at hnone
    exact Option.some_ne_none old hnone
  · -- index 1 has come, and the old fragment stands at index 0
    have hp : p = [1] := by
      obtain ⟨j, p', rfl⟩ := List.exists_cons_of_ne_nil hcover.nonempty
      obtain ⟨rfl, hnil⟩ := List.cons_prefix_cons.mp hbefore
      rw [List.prefix_nil.mp hnil]
    have hjoined : joined (overlay (Function.update (fun _ => none) 0 (some old)) x.chunks p)
        x.total = old ++ back := by
      simp [hp, htotal, joined, overlay, h₁]
    have hplaintext := haccepts.plaintext
    rw [hjoined, List.drop_append, h.old] at hplaintext
    have hhead := congrArg List.head? hplaintext
    rw [List.head?_append, longMessage, List.take_replicate, List.head?_replicate,
      if_neg (by decide), newMessage, List.head?_replicate, if_neg (by decide), Option.some_or] at hhead
    exact absurd hhead (by decide)

/-- In order it is delivered: both fragments replace what was left. -/
theorem delivered_iff_not_replaced_inOrder : ∃ (a b : Node) (sa : SessionInfo)
    (first second : Arrival), Reachable stub alpha a ∧ Reachable stub bravo b ∧
    content b.transport ("alpha", 1) 0 ≠ none ∧
    Delivered stub (sending stub stillEnv a.transport sa.sessionKey newMessage) alphaAddr "alpha"
      newMessage 0 b.transport [first, second] := by
  obtain ⟨a, b, sa, sb, old, h⟩ := exists_leftBehind
  let x := sending stub stillEnv a.transport sa.sessionKey newMessage
  obtain ⟨front, back, hchunks, _⟩ := chunks_pair stillEnv a.transport sa.sessionKey newMessage
    (by rw [newMessage, List.length_replicate])
  have h₀ : x.chunks[0]? = some front := by rw [hchunks]; rfl
  have h₁ : x.chunks[1]? = some back := by rw [hchunks]; rfl
  have htotal : x.total = 2 := by rw [Sending.total, hchunks]; rfl
  let first : Arrival := ⟨stillEnv, x.packet stub 0 front, alphaAddr⟩
  let second : Arrival := ⟨stillEnv, x.packet stub 1 back, alphaAddr⟩
  have hfirst : PacketOf stub x alphaAddr 0 first := ⟨rfl, front, h₀, rfl⟩
  have hsecond : PacketOf stub x alphaAddr 1 second := ⟨rfl, back, h₁, rfl⟩
  refine ⟨a, b, sa, first, second, h.sender, h.receiver, ?_, ?_⟩
  · rw [h.held, Function.update_self]
    exact Option.some_ne_none old
  · have hperm : ([0] ++ [1]).Perm (List.range x.total) := by
      rw [htotal]
      decide
    have hsign : stub.SignCorrect a.transport.identity.signingKeypair := by
      rw [h.identity]
      exact honest_alpha.sign
    have hsent := (send_raised_iff stub stillEnv a.transport "bravo" newMessage sa h.session).mpr
      h.reception.genuine.sendable
    have hcondition := delivered_iff_not_replaced stub_aeadCorrect a.transport b.transport "bravo"
      "alpha" sa sb alphaAddr stillEnv newMessage hsign h.session h.reception.holds h.reception.key
      h.verifyKey hsent [0] 1 hperm first [second] ⟨0, hfirst⟩
      (.packet 0 first [1] [second] hfirst (.packet 1 second [] [] hsecond .nil)) 0
      (by rw [h.callbacks]; simp)
    rw [h.first, h.held] at hcondition
    exact hcondition.mpr ⟨Or.inl h.present, Or.inr (Or.inl (Function.update_of_ne (by decide) _ _))⟩

end Stub

end Mesim.Leftovers
