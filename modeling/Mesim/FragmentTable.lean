import Mesim.Ledger
import Mesim.PacketFraming
import Mesim.Robustness
import Mesim.SessionIndexes

/-!
The table of unfinished messages.
Whatever datagrams arrive, the table stays small: a bounded number of buffers, each
of a bounded number of fragments. Nothing but the missing fragments ever empties
a buffer, though, so a table that is full of messages that do not come to an end
lets no further message through.
-/
namespace Mesim.FragmentTable

open Octets TextCodec Crypto Identity Packet PacketFraming Transport Operations Dispatch Nodes
open Fragments Honest Reassembly FragmentDelivery Robustness MeshTransport Outcome

section Model

/-- Decryption takes the tag off. -/
def Shortens (C : Suite) : Prop := ∀ key nonce aad ciphertext plaintext,
  C.chachaDecrypt key nonce aad ciphertext = some plaintext →
    plaintext.length + tagSize = ciphertext.length

/-- The longest fragment that a payload can carry. -/
def maxFragment : ℕ := 65535 - (fragHeaderSize + nonceSize + tagSize)

def heldBytes (t : MeshTransport) : ℕ :=
  (t.fragBufs.values.map fun buf => (buf.values.map List.length).sum).sum

/-- The name of a buffer: a peer with a session, and a message id. -/
def Named (t : MeshTransport) (bufKey : String × ℕ) : Prop :=
  bound t bufKey.1 ≠ none ∧ bufKey.2 < 256 ^ 4

/-- What a buffer holds. -/
structure Held (buf : OrderedDict ℕ Bytes) : Prop where
  nonempty : buf.size ≠ 0
  fits : ∀ i fragment, buf.get? i = some fragment → i < 255 ∧ fragment.length ≤ maxFragment

structure Bounded (t : MeshTransport) : Prop where
  room : t.fragBufs.size ≤ maxReassemblyBufs
  named : ∀ bufKey, t.fragBufs.get? bufKey ≠ none → Named t bufKey
  held : ∀ bufKey buf, t.fragBufs.get? bufKey = some buf → Held buf

end Model

section Bounds

theorem size_le_of_held {buf : OrderedDict ℕ Bytes} (h : Held buf) : buf.size ≤ 255 := by
  rw [OrderedDict.size_eq_card_keys, ← Finset.card_range 255]
  refine Finset.card_le_card fun i hi => ?_
  obtain ⟨fragment, hget⟩ := (buf.mem_keys_iff i).mp (List.mem_toFinset.mp hi)
  exact Finset.mem_range.mpr (h.fits i fragment hget).1

theorem sum_values_le {K V : Type*} (d : OrderedDict K V) (weight : V → ℕ) (k : ℕ)
    (h : ∀ v ∈ d.values, weight v ≤ k) : (d.values.map weight).sum ≤ d.size * k := by
  have hall : ∀ n ∈ d.values.map weight, n ≤ k := by
    intro n hn
    obtain ⟨v, hmem, rfl⟩ := List.mem_map.mp hn
    exact h v hmem
  have hsum := List.sum_le_card_nsmul _ _ hall
  have hsize : (d.values.map weight).length = d.size := by
    rw [List.length_map, OrderedDict.values, List.length_map, OrderedDict.size]
  rwa [hsize, Nat.nsmul_eq_mul] at hsum

theorem heldBytes_le {t : MeshTransport} (h : Bounded t) :
    heldBytes t ≤ maxReassemblyBufs * (255 * maxFragment) := by
  refine (sum_values_le t.fragBufs _ (255 * maxFragment) fun buf hmem => ?_).trans
    (Nat.mul_le_mul_right _ h.room)
  obtain ⟨bufKey, hget⟩ := (t.fragBufs.mem_values_iff buf).mp hmem
  have hheld := h.held bufKey buf hget
  refine (sum_values_le buf List.length maxFragment fun fragment hmem' => ?_).trans
    (Nat.mul_le_mul_right _ (size_le_of_held hheld))
  obtain ⟨i, hget'⟩ := (buf.mem_values_iff fragment).mp hmem'
  exact (hheld.fits i fragment hget').2

/-- The buffers may lose entries and the sessions may be replaced. -/
theorem Bounded.mono {t t' : MeshTransport} (h : Bounded t)
    (hroom : t'.fragBufs.size ≤ t.fragBufs.size)
    (hget : ∀ bufKey buf, t'.fragBufs.get? bufKey = some buf → t.fragBufs.get? bufKey = some buf)
    (hbound : ∀ peerId, bound t peerId ≠ none → bound t' peerId ≠ none) : Bounded t' where
  room := hroom.trans h.room
  named bufKey hsome := by
    obtain ⟨buf, hbuf⟩ := Option.ne_none_iff_exists'.mp hsome
    have hsome' : t.fragBufs.get? bufKey ≠ none := by
      rw [hget bufKey buf hbuf]
      exact Option.some_ne_none buf
    obtain ⟨hpeer, hid⟩ := h.named bufKey hsome'
    exact ⟨hbound _ hpeer, hid⟩
  held bufKey buf hbuf := h.held bufKey buf (hget bufKey buf hbuf)

theorem held_set {buf : OrderedDict ℕ Bytes} (h : buf = .empty ∨ Held buf) (i : ℕ)
    (fragment : Bytes) (hi : i < 255) (hlen : fragment.length ≤ maxFragment) :
    Held (buf.set i fragment) where
  nonempty := by
    have hone : [i].length ≤ (buf.set i fragment).size := by
      refine OrderedDict.length_le_size _ [i] (List.nodup_singleton i) fun k hk => ?_
      rw [List.mem_singleton.mp hk, OrderedDict.get?_set_self]
      exact Option.some_ne_none _
    exact Nat.ne_of_gt hone
  fits j other hget := by
    rw [OrderedDict.get?_set] at hget
    split at hget
    · rename_i heq
      cases hget
      exact ⟨heq ▸ hi, hlen⟩
    · rcases h with rfl | hheld
      · contradiction
      · exact hheld.fits j other hget

theorem openBuffer_cases {t : MeshTransport} {bufKey : String × ℕ} {buf : OrderedDict ℕ Bytes}
    (h : openBuffer t bufKey = some buf) : t.fragBufs.get? bufKey = some buf ∨
      (t.fragBufs.get? bufKey = none ∧ t.fragBufs.size < maxReassemblyBufs ∧ buf = .empty) := by
  unfold openBuffer at h
  cases hget : t.fragBufs.get? bufKey with
  | some own =>
    simp only [hget] at h
    exact Or.inl h
  | none =>
    simp only [hget] at h
    split at h
    · contradiction
    · rename_i hroom
      cases h
      exact Or.inr ⟨rfl, Nat.not_le.mp hroom, rfl⟩

theorem bounded_set {t : MeshTransport} (h : Bounded t) {bufKey : String × ℕ}
    {buf : OrderedDict ℕ Bytes} (hopen : openBuffer t bufKey = some buf) (hname : Named t bufKey)
    (i : ℕ) (fragment : Bytes) (hi : i < 255) (hlen : fragment.length ≤ maxFragment) :
    Bounded { t with fragBufs := t.fragBufs.set bufKey (buf.set i fragment) } where
  room := by
    show (t.fragBufs.set bufKey (buf.set i fragment)).size ≤ maxReassemblyBufs
    rw [OrderedDict.size_set]
    rcases openBuffer_cases hopen with hget | ⟨hget, hroom, _⟩
    · rw [if_neg (by rw [hget]; exact Option.some_ne_none _)]
      exact h.room
    · rw [if_pos hget]
      exact hroom
  named other hsome := by
    have hget : (t.fragBufs.set bufKey (buf.set i fragment)).get? other ≠ none := hsome
    rw [OrderedDict.get?_set] at hget
    split at hget
    · rename_i heq
      exact heq ▸ hname
    · exact h.named other hget
  held other stored hsome := by
    have hget : (t.fragBufs.set bufKey (buf.set i fragment)).get? other = some stored := hsome
    rw [OrderedDict.get?_set] at hget
    split at hget
    · cases hget
      refine held_set ?_ i fragment hi hlen
      rcases openBuffer_cases hopen with hbuf | ⟨_, _, hempty⟩
      · exact Or.inr (h.held bufKey buf hbuf)
      · exact Or.inl hempty
    · exact h.held other stored hget

variable (C : Suite)

theorem bounded_storeFragment (env : Env) {t : MeshTransport} (h : Bounded t)
    (session : SessionInfo) (peerId : String) (addr : Addr) (msgId fragIdx fragTotal : ℕ)
    (fragment : Bytes) (hsession : t.sessions.get? peerId = some session) (hid : msgId < 256 ^ 4)
    (hindex : fragIdx < 255) (hlen : fragment.length ≤ maxFragment) :
    Bounded (storeFragment C env t session peerId addr msgId fragIdx fragTotal fragment).state := by
  have hname : Named t (peerId, msgId) := by
    refine ⟨?_, hid⟩
    rw [bound, hsession]
    exact Option.some_ne_none _
  have htraffic := storeFragment_trafficOnly C env t session peerId addr msgId fragIdx fragTotal
    fragment hsession
  have hbound : ∀ peer, bound t peer ≠ none → bound (storeFragment C env t session peerId addr msgId
      fragIdx fragTotal fragment).state peer ≠ none := by
    intro peer hpeer
    rw [htraffic.same.bound peer]
    exact hpeer
  cases hopen : openBuffer t (peerId, msgId) with
  | none =>
    simp only [storeFragment, hopen]
    exact h
  | some buf =>
    have hset := bounded_set h hopen hname fragIdx fragment hindex hlen
    revert hbound
    unfold storeFragment attempt
    simp only [hopen]
    split
    · exact fun _ => hset
    · split
      · exact fun _ => hset
      · intro hbound
        refine hset.mono ?_ ?_ hbound
        · rw [fragBufs_deliverAssembled]
          exact OrderedDict.size_erase_le _ _
        · intro other stored hget
          rw [fragBufs_deliverAssembled, OrderedDict.get?_erase] at hget
          split at hget
          · contradiction
          · exact hget

/-- An admitted fragment is no longer than its payload allows. -/
theorem admitted_fits (hshort : Shortens C) {t : MeshTransport} {data : Bytes} {addr : Addr}
    {peerId : String} {session : SessionInfo} {payload fragment : Bytes}
    (h : Admitted C t data addr peerId session payload fragment) :
    (unpackFragHeader payload).msgId < 256 ^ 4 ∧ (unpackFragHeader payload).fragIdx < 255 ∧
      fragment.length ≤ maxFragment := by
  have hsize := h.size
  have hindex := h.index
  have hmsgId := unpackBE_lt (slice payload 0 4)
  have htotal := unpackBE_lt (slice payload 5 1)
  rw [slice_length payload 0 4 (by simp only [fragHeaderSize] at hsize; omega)] at hmsgId
  rw [slice_length payload 5 1 (by simp only [fragHeaderSize] at hsize; omega)] at htotal
  have hfrag : (unpackFragHeader payload).fragTotal < 256 ^ 1 := htotal
  refine ⟨hmsgId, by omega, ?_⟩
  obtain ⟨sid, hparse⟩ := h.parsed
  obtain ⟨hframed, _, _, _, hpayload⟩ := (parsePacket_ok_iff data _).mp hparse
  have hlong : payload.length ≤ 65535 := by
    have hdeclared : declaredLength data < 256 ^ (slice data 34 2).length :=
      unpackBE_lt (slice data 34 2)
    rw [slice_length data 34 2 (le_trans (by decide) hframed)] at hdeclared
    rw [show payload = slice data headerSize (declaredLength data) from hpayload, slice,
      List.length_take]
    omega
  have hopened := h.opened
  unfold Suite.decryptMessage at hopened
  split at hopened
  · split at hopened
    · rename_i plaintext hplain
      cases hopened
      have hlen := hshort _ _ _ _ _ hplain
      rw [List.length_drop] at hlen
      simp only [maxFragment, fragHeaderSize, nonceSize, tagSize] at hlen hsize ⊢
      omega
    · contradiction
  · contradiction

theorem bounded_dispatch (hshort : Shortens C) (env : Env) {t : MeshTransport} (h : Bounded t)
    (data : Bytes) (addr : Addr) : Bounded (dispatch C env t data addr).state := by
  by_cases hadmitted : ∃ peerId session payload fragment,
      Admitted C t data addr peerId session payload fragment
  · obtain ⟨peerId, session, payload, fragment, hadmitted⟩ := hadmitted
    obtain ⟨hid, hindex, hlen⟩ := admitted_fits C hshort hadmitted
    rw [dispatch_admitted C env hadmitted]
    exact bounded_storeFragment C env h session peerId addr _ _ _ fragment hadmitted.holds.session
      hid hindex hlen
  · have hget := fragBufs_not_admitted C env t data addr hadmitted
    refine h.mono (OrderedDict.size_congr hget).le (fun bufKey buf hbuf => ?_)
      fun peerId hpeer => ?_
    · rw [← hget bufKey]
      exact hbuf
    · rw [bound_dispatch]
      split
      · split
        · exact Option.some_ne_none _
        · exact hpeer
      · exact hpeer

theorem bounded_step (hshort : Shortens C) (n : Node) (e : Env × Event) (h : Bounded n.transport) :
    Bounded (nodeStep C n e).transport := by
  obtain ⟨env, event⟩ := e
  by_cases hdatagram : ∃ data addr, event = .datagram data addr
  · obtain ⟨data, addr, rfl⟩ := hdatagram
    exact bounded_dispatch C hshort env h data addr
  · have hother : ∀ data addr, event ≠ .datagram data addr :=
      fun data addr heq => hdatagram ⟨data, addr, heq⟩
    have hbufs := fragBufs_own C n env event hother
    obtain ⟨hbound, _⟩ := SessionIndexes.same_of_not_datagram C n env event hother
    refine h.mono (by rw [hbufs]) (fun bufKey buf hbuf => ?_) fun peerId hpeer => ?_
    · rw [← hbufs]
      exact hbuf
    · rw [hbound]
      exact hpeer

theorem bounded_started {owner : DeviceIdentity} {n : Node} (hn : Started owner n) :
    Bounded n.transport := by
  have hnone : ∀ bufKey, n.transport.fragBufs.get? bufKey = none := by
    rw [hn.1.fragBufs]
    exact fun _ => rfl
  refine ⟨?_, fun bufKey hsome => absurd (hnone bufKey) hsome, fun bufKey buf hget => ?_⟩
  · rw [OrderedDict.size_eq_zero _ hnone]
    exact Nat.zero_le _
  · rw [hnone] at hget
    contradiction

/-- In every state that a node reaches, whatever datagrams it got: there are at most 64 buffers,
each under the id of a peer with a session and a message id of 32 bits; each holds at least one and
at most 255 fragments, none longer than a packet can carry; and all of them together hold
so many bytes at most. -/
theorem reassembly_bounded (hshort : Shortens C) (owner : DeviceIdentity) (n : Node)
    (h : Reachable C owner n) : Bounded n.transport ∧
      (∀ bufKey buf, n.transport.fragBufs.get? bufKey = some buf → buf.size ≤ 255) ∧
      heldBytes n.transport ≤ 64 * 255 * 65501 := by
  have hbounded : Bounded n.transport :=
    Runs.reachable_invariant (fun _ hn => bounded_started hn) (bounded_step C hshort) h
  exact ⟨hbounded, fun bufKey buf hget => size_le_of_held (hbounded.held bufKey buf hget),
    heldBytes_le hbounded⟩

end Bounds

section Full

variable (C : Suite)

/-- The messages with a buffer do not go on: no datagram of the step is about one of them. -/
def Aside (full : MeshTransport) (visit : Node × Env × Event) : Prop :=
  ∀ data addr bufKey, visit.2.2 = .datagram data addr →
    about visit.1.transport data addr = some bufKey → full.fragBufs.get? bufKey = none

/-- The table is as it was when it was full. -/
def Stuck (full t : MeshTransport) : Prop :=
  maxReassemblyBufs ≤ full.fragBufs.size ∧
    ∀ bufKey, t.fragBufs.get? bufKey = full.fragBufs.get? bufKey

theorem openBuffer_stuck {full t : MeshTransport} (h : Stuck full t) {bufKey : String × ℕ}
    (hnone : full.fragBufs.get? bufKey = none) : openBuffer t bufKey = none := by
  have hsize : maxReassemblyBufs ≤ t.fragBufs.size := by
    rw [OrderedDict.size_congr h.2]
    exact h.1
  simp only [openBuffer, h.2 bufKey, hnone, if_pos hsize]

theorem about_admitted {t : MeshTransport} {data : Bytes} {addr : Addr} {peerId : String}
    {session : SessionInfo} {payload fragment : Bytes}
    (h : Admitted C t data addr peerId session payload fragment) :
    about t data addr = some (peerId, (unpackFragHeader payload).msgId) := by
  obtain ⟨sid, hparse⟩ := h.parsed
  simp only [about, hparse, h.holds.byAddr, Option.map_some]

/-- A datagram that is no admitted fragment reaches no message callback. -/
theorem quiet_not_admitted (env : Env) (t : MeshTransport) (data : Bytes) (addr : Addr)
    (h : ¬ ∃ peerId session payload fragment,
      Admitted C t data addr peerId session payload fragment) :
    Ledger.Quiet (dispatch C env t data addr).effects := by
  cases hparse : parsePacket data with
  | error e =>
    simp only [dispatch, hparse]
    exact Ledger.quiet_nil
  | ok packet =>
    obtain ⟨ptype, sid, payload⟩ := packet
    by_cases hgate : macGate C t ptype data addr = true
    · simp only [dispatch, hparse, hgate, if_true]
      by_cases hmessage : ptype = .message
      · subst hmessage
        rcases done_or_admitted C env t data sid payload addr hparse hgate with
          hdone | ⟨peerId, session, fragment, hadmitted, _⟩
        · simp only [handle, hdone]
          exact Ledger.quiet_nil
        · exact absurd ⟨peerId, session, payload, fragment, hadmitted⟩ h
      · exact Ledger.quiet_handle C env t ⟨ptype, sid, payload⟩ data addr hmessage
    · simp only [dispatch, hparse, if_neg hgate]
      exact Ledger.quiet_nil

theorem stuck_step {full : MeshTransport} (n : Node) (e : Env × Event)
    (h : Stuck full n.transport) (haside : Aside full (n, e)) :
    Stuck full (nodeStep C n e).transport ∧ Ledger.Quiet (n.step C e.1 e.2).2 := by
  obtain ⟨env, event⟩ := e
  by_cases hdatagram : ∃ data addr, event = .datagram data addr
  · obtain ⟨data, addr, rfl⟩ := hdatagram
    show Stuck full (dispatch C env n.transport data addr).state ∧
      Ledger.Quiet (dispatch C env n.transport data addr).effects
    by_cases hadmitted : ∃ peerId session payload fragment,
        Admitted C n.transport data addr peerId session payload fragment
    · obtain ⟨peerId, session, payload, fragment, hadmitted⟩ := hadmitted
      have hnone := openBuffer_stuck h (haside data addr _ rfl (about_admitted C hadmitted))
      have hstored : stored C env n.transport addr peerId session payload fragment =
          done n.transport := by
        simp only [stored, storeFragment, hnone]
      rw [dispatch_admitted C env hadmitted, hstored]
      exact ⟨h, Ledger.quiet_nil⟩
    · refine ⟨⟨h.1, fun bufKey => ?_⟩, quiet_not_admitted C env n.transport data addr hadmitted⟩
      rw [fragBufs_not_admitted C env n.transport data addr hadmitted, h.2]
  · have hother : ∀ data addr, event ≠ .datagram data addr :=
      fun data addr heq => hdatagram ⟨data, addr, heq⟩
    refine ⟨⟨h.1, ?_⟩, Ledger.quiet_own C n env event hother⟩
    rw [fragBufs_own C n env event hother]
    exact h.2

theorem stuck_run {full : MeshTransport} (events : List (Env × Event)) (n : Node)
    (h : Stuck full n.transport)
    (haside : ∀ visit ∈ Runs.visits (nodeStep C) n events, Aside full visit) :
    Stuck full (Runs.run (nodeStep C) n events).transport ∧
      ∀ visit ∈ Runs.visits (nodeStep C) n events,
        Ledger.Quiet (visit.1.step C visit.2.1 visit.2.2).2 := by
  induction events generalizing n with
  | nil => exact ⟨h, fun visit hvisit => absurd hvisit List.not_mem_nil⟩
  | cons e rest ih =>
    rw [Runs.visits, List.forall_mem_cons] at haside
    obtain ⟨hnext, hquiet⟩ := stuck_step C n e h haside.1
    obtain ⟨hrun, hrest⟩ := ih _ hnext haside.2
    rw [Runs.run_cons, Runs.visits, List.forall_mem_cons]
    exact ⟨hrun, hquiet, hrest⟩

end Full

section Flood

variable (C : Suite)

/-- The first of two fragments, with nothing in it. -/
def half (senderId : Fixed 32) (key : SessionKey) (nonce : Nonce) (msgId : ℕ) : Sending where
  senderId := senderId
  key := key
  msgId := msgId
  nonce := fun _ => nonce
  chunks := [[], []]

/-- One such fragment of each of these messages arrives. -/
def flood (senderId : Fixed 32) (key : SessionKey) (nonce : ℕ → Nonce) (env : ℕ → Env) (addr : Addr)
    (ids : List ℕ) : List (Env × Event) :=
  ids.map fun m => (env m, .datagram ((half senderId key (nonce m) m).packet C 0 []) addr)

variable {C} {addr : Addr} {peerId : String}

theorem sendable_half (senderId : Fixed 32) (key : SessionKey) (nonce : Nonce) {m : ℕ}
    (hm : m < 256 ^ 4) : (half senderId key nonce m).Sendable := by
  intro i chunk hchunk
  have hmem : chunk ∈ [([] : Bytes), []] := List.mem_of_getElem? hchunk
  have hempty : chunk = [] := by simpa using hmem
  obtain ⟨hi, _⟩ := List.getElem?_eq_some_iff.mp hchunk
  have hlt : i < 2 := hi
  rw [hempty]
  exact ⟨hm, by omega, (by decide : 2 < 256), by decide⟩

/-- Half of a new message takes up a buffer of its own, as long as there is one. -/
theorem half_step (haead : C.AeadCorrect) (senderId : Fixed 32) {n : Node} {session : SessionInfo}
    (hholds : Holds n.transport addr peerId session) {m : ℕ} (hm : m < 256 ^ 4)
    (hnone : n.transport.fragBufs.get? (peerId, m) = none) (nonce : Nonce) (env : Env) :
    let next := nodeStep C n
      (env, .datagram ((half senderId session.sessionKey nonce m).packet C 0 []) addr)
    SameHandshakes n.transport next.transport ∧
      (∀ bufKey, bufKey ≠ (peerId, m) →
        next.transport.fragBufs.get? bufKey = n.transport.fragBufs.get? bufKey) ∧
      (maxReassemblyBufs ≤ n.transport.fragBufs.size ∨
        next.transport.fragBufs.get? (peerId, m) ≠ none) := by
  have hsendable := sendable_half senderId session.sessionKey nonce hm
  have hparse := Sending.parse_packet C hsendable (i := 0) rfl
  have hstate := (dispatch_packet C haead env hholds (half senderId session.sessionKey nonce m) rfl
    hsendable 0 [] rfl).1
  refine ⟨sameHandshakes_message C env n.transport _ _ _ addr hparse, fun bufKey hne => ?_, ?_⟩
  · show (dispatch C env n.transport _ addr).state.fragBufs.get? bufKey = _
    rw [hstate]
    exact fragBufs_storeFragment C env n.transport session peerId addr m 0 _ [] bufKey (Ne.symm hne)
  · by_cases hfull : maxReassemblyBufs ≤ n.transport.fragBufs.size
    · exact Or.inl hfull
    · have hopen : openBuffer n.transport (peerId, m) = some .empty := by
        simp only [openBuffer, hnone, if_neg hfull]
      refine Or.inr ?_
      show (dispatch C env n.transport _ addr).state.fragBufs.get? (peerId, m) ≠ none
      rw [hstate]
      show (storeFragment C env n.transport session peerId addr m 0 2 []).state.fragBufs.get? _ ≠
        none
      simp only [storeFragment, hopen]
      rw [if_pos (by decide)]
      exact (congrArg (· ≠ none) (OrderedDict.get?_set_self _ _ _)).mpr (Option.some_ne_none _)

/-- After the flood the table is full, or holds all the messages of it. -/
theorem flood_run (haead : C.AeadCorrect) (senderId : Fixed 32) (key : SessionKey)
    (nonce : ℕ → Nonce) (env : ℕ → Env) (ids : List ℕ) (n : Node) {session : SessionInfo}
    (hholds : Holds n.transport addr peerId session) (hkey : session.sessionKey = key) (hnodup : ids.Nodup)
    (hids : ∀ m ∈ ids, m < 256 ^ 4 ∧ n.transport.fragBufs.get? (peerId, m) = none) :
    let next := Runs.run (nodeStep C) n (flood C senderId key nonce env addr ids)
    (∀ bufKey, n.transport.fragBufs.get? bufKey ≠ none →
        next.transport.fragBufs.get? bufKey ≠ none) ∧
      (∀ bufKey, bufKey.2 ∉ ids →
        next.transport.fragBufs.get? bufKey = n.transport.fragBufs.get? bufKey) ∧
      (maxReassemblyBufs ≤ next.transport.fragBufs.size ∨
        ∀ m ∈ ids, next.transport.fragBufs.get? (peerId, m) ≠ none) := by
  induction ids generalizing n session with
  | nil => exact ⟨fun _ h => h, fun _ _ => rfl, Or.inr fun m hm => absurd hm List.not_mem_nil⟩
  | cons m rest ih =>
    subst hkey
    obtain ⟨hm, hnone⟩ := hids m List.mem_cons_self
    obtain ⟨hsame, helse, htaken⟩ := half_step haead senderId hholds hm hnone (nonce m) (env m)
    obtain ⟨session', hholds', hkey', _⟩ := holds_of_same hholds hsame
    rw [List.nodup_cons] at hnodup
    obtain ⟨hkept, hother, hrest⟩ := ih _ hholds' hkey' hnodup.2 fun m' hm' => by
      refine ⟨(hids m' (List.mem_cons_of_mem m hm')).1, ?_⟩
      rw [helse _ fun heq => hnodup.1 ((Prod.mk.inj heq).2 ▸ hm')]
      exact (hids m' (List.mem_cons_of_mem m hm')).2
    have hall : ∀ bufKey, n.transport.fragBufs.get? bufKey ≠ none →
        (Runs.run (nodeStep C) n (flood C senderId session.sessionKey nonce env addr
          (m :: rest))).transport.fragBufs.get? bufKey ≠ none := by
      intro bufKey hsome
      refine hkept bufKey ?_
      rw [helse bufKey fun heq => hsome (heq ▸ hnone)]
      exact hsome
    refine ⟨hall, fun bufKey hnot => ?_, ?_⟩
    · rw [List.mem_cons, not_or] at hnot
      rw [flood, List.map_cons, Runs.run_cons]
      exact (hother bufKey hnot.2).trans (helse bufKey fun heq => hnot.1 (congrArg Prod.snd heq))
    rcases hrest with hfull | hheld
    · exact Or.inl hfull
    · rcases htaken with hfull | hsome
      · left
        refine hfull.trans ?_
        rw [OrderedDict.size, ← List.length_map (f := Prod.fst)]
        refine OrderedDict.length_le_size _ n.transport.fragBufs.keys n.transport.fragBufs.nodup ?_
        intro bufKey hmem
        exact hall bufKey fun hnone =>
          (n.transport.fragBufs.get?_eq_none_iff bufKey).mp hnone hmem
      · right
        rw [List.forall_mem_cons]
        exact ⟨hkept _ hsome, hheld⟩

/-- The halves of 64 new messages fill the table. -/
theorem flood_fills (haead : C.AeadCorrect) (senderId : Fixed 32) (nonce : ℕ → Nonce)
    (env : ℕ → Env) (ids : List ℕ) (n : Node) {session : SessionInfo}
    (hholds : Holds n.transport addr peerId session) (hnodup : ids.Nodup)
    (hmany : maxReassemblyBufs ≤ ids.length)
    (hids : ∀ m ∈ ids, m < 256 ^ 4 ∧ n.transport.fragBufs.get? (peerId, m) = none) :
    maxReassemblyBufs ≤ (Runs.run (nodeStep C) n
      (flood C senderId session.sessionKey nonce env addr ids)).transport.fragBufs.size := by
  obtain ⟨_, _, htable⟩ := flood_run haead senderId _ nonce env ids n hholds rfl hnodup hids
  rcases htable with hsize | hheld
  · exact hsize
  · refine hmany.trans ?_
    rw [← List.length_map (f := fun m => (peerId, m))]
    refine OrderedDict.length_le_size _ _ (hnodup.map fun m m' heq => (Prod.mk.inj heq).2) ?_
    intro bufKey hmem
    obtain ⟨m, hm, rfl⟩ := List.mem_map.mp hmem
    exact hheld m hm

/-- One peer with a session can stop all messages for good: once the first halves of 64 new messages
have come from its address, nothing is handed to a message callback any more and the table
stays as it is, whatever the node and its peers do, as long as no fragment of a message
that has a buffer arrives. -/
theorem full_table_blocks (haead : C.AeadCorrect) (n : Node) {session : SessionInfo}
    (hholds : Holds n.transport addr peerId session) (senderId : Fixed 32) (nonce : ℕ → Nonce)
    (env : ℕ → Env) (ids : List ℕ)
    (hnodup : ids.Nodup) (hmany : maxReassemblyBufs ≤ ids.length)
    (hids : ∀ m ∈ ids, m < 256 ^ 4 ∧ n.transport.fragBufs.get? (peerId, m) = none)
    (full : Node) (hfull : full = Runs.run (nodeStep C) n
      (flood C senderId session.sessionKey nonce env addr ids))
    (events : List (Env × Event))
    (haside : ∀ visit ∈ Runs.visits (nodeStep C) full events, Aside full.transport visit) :
    (∀ bufKey, (Runs.run (nodeStep C) full events).transport.fragBufs.get? bufKey =
        full.transport.fragBufs.get? bufKey) ∧
      ∀ visit ∈ Runs.visits (nodeStep C) full events, ∀ cb peer message,
        .message cb peer message ∉ (visit.1.step C visit.2.1 visit.2.2).2 := by
  subst hfull
  have hsize := flood_fills haead senderId nonce env ids n hholds hnodup hmany hids
  obtain ⟨⟨_, hsame⟩, hquiet⟩ := stuck_run C events _ ⟨hsize, fun _ => rfl⟩ haside
  exact ⟨hsame, hquiet⟩

end Flood

section Stub

theorem stub_shortens : Shortens stub := by
  intro key nonce aad ciphertext plaintext h
  simp only [stub] at h
  split at h
  · rename_i htag
    cases h
    have hlen := congrArg List.length htag
    rw [List.length_drop, List.Vector.toList_length] at hlen
    rw [List.length_take, tagSize]
    omega
  · contradiction

/-- Bravo's node with alpha's session and no buffers. -/
theorem exists_unbuffered : ∃ (b : Node) (session : SessionInfo), Reachable stub bravo b ∧
    Holds b.transport alphaAddr "alpha" session ∧
    ∀ bufKey, b.transport.fragBufs.get? bufKey = none := by
  obtain ⟨_, b, _, hreach, _, hest, _, ⟨t₀, ht₀, _, _, hsame⟩⟩ := exists_established [] .empty
  obtain ⟨session, hholds, _⟩ := holds_of_established hest
  refine ⟨b, session, hreach, hholds, ?_⟩
  rw [hsame.fragBufs, ht₀.fragBufs]
  exact fun _ => rfl

/-- The halves of the messages 0 to 63. -/
def halves (session : SessionInfo) : List (Env × Event) :=
  flood stub sid session.sessionKey stillEnv.nonce (fun _ => stillEnv) alphaAddr (List.range 64)

theorem new_halves {t : MeshTransport} (hnone : ∀ bufKey, t.fragBufs.get? bufKey = none) :
    ∀ m ∈ List.range 64, m < 256 ^ 4 ∧ t.fragBufs.get? ("alpha", m) = none := by
  intro m hm
  have hlt := List.mem_range.mp hm
  exact ⟨by omega, hnone _⟩

/-- A full table is within the bounds. -/
theorem reassembly_bounded_bravo : ∃ n, Reachable stub bravo n ∧
    maxReassemblyBufs ≤ n.transport.fragBufs.size ∧ Bounded n.transport ∧
    heldBytes n.transport ≤ 64 * 255 * 65501 := by
  obtain ⟨b, session, hreach, hholds, hnone⟩ := exists_unbuffered
  have hfull := flood_fills stub_aeadCorrect sid stillEnv.nonce (fun _ => stillEnv) (List.range 64) b
    hholds List.nodup_range (by rw [List.length_range]) (new_halves hnone)
  have hreach' := hreach.run (halves session)
  have hbounded := reassembly_bounded stub stub_shortens bravo _ hreach'
  exact ⟨_, hreach', hfull, hbounded.1, hbounded.2.2⟩

/-- A message of one fragment. -/
def whole (m : ℕ) : Sending where
  senderId := sid
  key := sharedKey
  msgId := m
  nonce := stillEnv.nonce
  chunks := [[]]

/-- Alpha's message 64 does not get through to bravo after the halves of 0 to 63. -/
theorem full_table_blocks_bravo : ∃ full, Reachable stub bravo full ∧ ∀ cb peer message,
    .message cb peer message ∉
      (full.step stub stillEnv (.datagram ((whole 64).packet stub 0 []) alphaAddr)).2 := by
  obtain ⟨b, session, hreach, hholds, hnone⟩ := exists_unbuffered
  obtain ⟨full, hfull⟩ : ∃ full, full = Runs.run (nodeStep stub) b (halves session) := ⟨_, rfl⟩
  have hflood := (flood_run stub_aeadCorrect sid _ stillEnv.nonce (fun _ => stillEnv) (List.range 64)
    b hholds rfl List.nodup_range (new_halves hnone)).2.1
  rw [← halves, ← hfull] at hflood
  have hsendable : (whole 64).Sendable := by
    intro i chunk hchunk
    obtain ⟨hi, rfl⟩ := List.getElem?_eq_some_iff.mp hchunk
    have hzero : i = 0 := Nat.lt_one_iff.mp hi
    subst hzero
    have hempty : (whole 64).chunks[0] = [] := rfl
    rw [hempty]
    exact ⟨(by decide : 64 < 256 ^ 4), by omega, (by decide : 1 < 256), by decide⟩
  refine ⟨full, hfull ▸ hreach.run _, ?_⟩
  have hblocked := (full_table_blocks stub_aeadCorrect b hholds sid stillEnv.nonce
    (fun _ => stillEnv) (List.range 64) List.nodup_range (by rw [List.length_range])
    (new_halves hnone) full hfull
    [(stillEnv, .datagram ((whole 64).packet stub 0 []) alphaAddr)] ?_).2
  · exact hblocked _ List.mem_cons_self
  · intro visit hvisit data addr bufKey hevent habout
    cases List.mem_singleton.mp hvisit
    cases hevent
    have hparse := Sending.parse_packet stub hsendable (i := 0) rfl
    have hunpack := Sending.unpack_payload stub hsendable (i := 0) rfl
    simp only [about, hparse, hunpack] at habout
    obtain ⟨peer, _, rfl⟩ := Option.map_eq_some_iff.mp habout
    exact (hflood (peer, 64) fun hmem => absurd (List.mem_range.mp hmem) (lt_irrefl 64)).trans
      (hnone _)

end Stub

end Mesim.FragmentTable
