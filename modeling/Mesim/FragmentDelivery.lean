import Mesim.Honest
import Mesim.Reassembly

/-!
A message whose packets arrive in any order.
The packets of one send() reach the peer in any order and possibly repeated,
between MESSAGE packets of other peers or other messages. As long as no packet
is repeated after the last missing one, and there is room for a buffer when the
first arrives, the last missing one delivers the message once, acknowledges it
once and leaves no buffer.
-/
namespace Mesim.FragmentDelivery

open Octets TextCodec Crypto Identity Packet Transport Operations Dispatch Nodes Fragments
open Honest Reassembly Collector MeshTransport Outcome

variable (C : Suite)

def IsMessage (data : Bytes) : Prop :=
  ∃ sid payload, parsePacket data = .ok ⟨.message, sid, payload⟩

/-- The state after these arrivals. -/
def after (t : MeshTransport) (arrivals : List Arrival) : MeshTransport :=
  Runs.run (receive C) t arrivals

/-- What the arrival causes in this state. -/
def caused (t : MeshTransport) (a : Arrival) : List Effect :=
  (dispatch C a.env t a.data a.addr).effects

/-- A copy of a packet that the call has sent, coming from the sender's address. -/
def Copy (sent : List Effect) (addr : Addr) (a : Arrival) : Prop :=
  a.addr = addr ∧ ∃ dest, .sendto a.data dest ∈ sent

/-- A MESSAGE packet of another peer or another message. -/
def Foreign (t : MeshTransport) (bufKey : String × ℕ) (a : Arrival) : Prop :=
  IsMessage a.data ∧ about t a.data a.addr ≠ some bufKey

section Packets

theorem packet_injective (x : Sending) (hx : x.Sendable) {i j : ℕ} {chunk chunk' : Bytes}
    (hi : x.chunks[i]? = some chunk) (hj : x.chunks[j]? = some chunk')
    (h : x.packet C i chunk = x.packet C j chunk') : i = j := by
  have hparse := Sending.parse_packet C hx hi
  rw [h, Sending.parse_packet C hx hj] at hparse
  have hpayload : x.payload C j chunk' = x.payload C i chunk :=
    congrArg ParsedPacket.payload (Except.ok.inj hparse)
  have hheader := congrArg unpackFragHeader hpayload
  rw [Sending.unpack_payload C hx hi, Sending.unpack_payload C hx hj] at hheader
  exact (congrArg FragHeader.fragIdx hheader).symm

theorem isMessage_packet (x : Sending) (hx : x.Sendable) {i : ℕ} {chunk : Bytes}
    (hi : x.chunks[i]? = some chunk) : IsMessage (x.packet C i chunk) :=
  ⟨_, _, Sending.parse_packet C hx hi⟩

/-- A copy is one of the packets the message was cut into. -/
theorem copy_iff (x : Sending) (t : MeshTransport) (hudp : t.udpTransport = true)
    (dest addr : Addr) (a : Arrival) :
    Copy ((x.packets C).flatMap (fun pkt => t.sendRaw pkt dest)) addr a ↔
      a.addr = addr ∧ ∃ i chunk, x.chunks[i]? = some chunk ∧ a.data = x.packet C i chunk := by
  unfold Copy
  refine and_congr_right fun _ => ?_
  rw [← x.mem_packets C a.data]
  constructor
  · rintro ⟨dest', hsent⟩
    obtain ⟨pkt, hpkt, hraw⟩ := List.mem_flatMap.mp hsent
    cases mem_sendRaw t pkt dest _ hraw
    exact hpkt
  · intro hpkt
    exact ⟨dest, List.mem_flatMap.mpr ⟨a.data, hpkt, by simp [sendRaw, hudp]⟩⟩

end Packets

section Receiving

variable {t t' : MeshTransport} {addr : Addr} {peerId : String} {session : SessionInfo}

theorem holds_of_same (h : Holds t addr peerId session) (hsame : SameHandshakes t t') :
    ∃ s, Holds t' addr peerId s ∧ s.sessionKey = session.sessionKey ∧
      s.peerBundle = session.peerBundle := by
  have hbound := hsame.bound peerId
  rw [bound, bound, h.session] at hbound
  obtain ⟨s, hs, heq⟩ := Option.map_eq_some_iff.mp hbound
  simp only [Prod.mk.injEq] at heq
  exact ⟨s, ⟨by rw [hsame.sessionsByAddr]; exact h.byAddr, hs⟩, heq.2.1, heq.2.2⟩

theorem Buffered.of_get?_eq {bufKey : String × ℕ} {chunks : List Bytes} {kept : Finset ℕ}
    (h : Buffered t bufKey chunks kept)
    (hget : t'.fragBufs.get? bufKey = t.fragBufs.get? bufKey) : Buffered t' bufKey chunks kept := by
  cases h with
  | absent hnone => exact .absent (hget.trans hnone)
  | present kept buf hkept hbuf hcontent => exact .present kept buf hkept (hget.trans hbuf) hcontent

theorem about_of_same (hsame : SameHandshakes t t') (data : Bytes) (addr : Addr) :
    about t' data addr = about t data addr := by
  simp only [about, hsame.sessionsByAddr]

theorem delivery_of_same (hsame : SameHandshakes t t') (addr : Addr) (peerId : String)
    (key : SessionKey) (msgId : ℕ) (message : Bytes) :
    delivery C t' addr peerId key msgId message = delivery C t addr peerId key msgId message := by
  simp only [delivery, sendRaw, hsame.udpTransport, hsame.senderId, hsame.messageCbs]

theorem receive_same (hsame : SameHandshakes t t') (a : Arrival) (ha : IsMessage a.data) :
    SameHandshakes t (receive C t' a) := by
  obtain ⟨sid, payload, hparse⟩ := ha
  exact hsame.trans (sameHandshakes_message C a.env t' a.data sid payload a.addr hparse)

theorem after_same (hsame : SameHandshakes t t') (arrivals : List Arrival)
    (h : ∀ a ∈ arrivals, IsMessage a.data) : SameHandshakes t (after C t' arrivals) := by
  induction arrivals generalizing t' with
  | nil => exact hsame
  | cons a rest ih =>
    exact ih (receive_same C hsame a (h a List.mem_cons_self))
      (fun b hb => h b (List.mem_cons_of_mem a hb))

/-- The receiver accepts the message's packets from this address. -/
structure Reception (t : MeshTransport) (addr : Addr) (peerId : String) (session : SessionInfo)
    (x : Sending) (message : Bytes) : Prop where
  holds : Holds t addr peerId session
  key : session.sessionKey = x.key
  genuine : Genuine C x message session.peerBundle.verifyKey

variable {x : Sending} {message : Bytes} {kept : Finset ℕ}

theorem foreign_step (hsame : SameHandshakes t t') (hbuf : Buffered t' (peerId, x.msgId) x.chunks kept)
    (a : Arrival) (ha : Foreign t (peerId, x.msgId) a) :
    SameHandshakes t (receive C t' a) ∧
      Buffered (receive C t' a) (peerId, x.msgId) x.chunks kept := by
  refine ⟨receive_same C hsame a ha.1, Buffered.of_get?_eq hbuf ?_⟩
  apply fragBufs_dispatch C a.env t' a.data a.addr _
  rw [about_of_same hsame]
  exact ha.2

theorem copy_step (haead : C.AeadCorrect) (h : Reception C t addr peerId session x message)
    (hsame : SameHandshakes t t') (hkept : kept ⊆ Finset.range x.total)
    (hbuf : Buffered t' (peerId, x.msgId) x.chunks kept)
    (hopen : openBuffer t' (peerId, x.msgId) ≠ none) (env : Env) (i : ℕ) (chunk : Bytes)
    (hchunk : x.chunks[i]? = some chunk) :
    let a : Arrival := ⟨env, x.packet C i chunk, addr⟩
    SameHandshakes t (receive C t' a) ∧
    Buffered (receive C t' a) (peerId, x.msgId) x.chunks
      (collect (Finset.range x.total) kept i) ∧
    caused C t' a = if insert i kept = Finset.range x.total then
      delivery C t addr peerId x.key x.msgId message else [] := by
  obtain ⟨s, hholds, hkey, hbundle⟩ := holds_of_same h.holds hsame
  obtain ⟨hbuf', heffects⟩ := receive_kept C haead env hholds x message (hkey.trans h.key)
    (by rw [hbundle]; exact h.genuine) i chunk hchunk kept hkept hbuf hopen
  refine ⟨receive_same C hsame ⟨env, x.packet C i chunk, addr⟩
    (isMessage_packet C x h.genuine.sendable hchunk), hbuf', ?_⟩
  rw [← delivery_of_same C hsame]
  exact heffects

theorem foreign_run (hsame : SameHandshakes t t')
    (hbuf : Buffered t' (peerId, x.msgId) x.chunks kept) (arrivals : List Arrival)
    (hforeign : ∀ a ∈ arrivals, Foreign t (peerId, x.msgId) a) :
    Buffered (after C t' arrivals) (peerId, x.msgId) x.chunks kept := by
  induction arrivals generalizing t' with
  | nil => exact hbuf
  | cons a rest ih =>
    obtain ⟨hsame', hbuf'⟩ := foreign_step C hsame hbuf a (hforeign a List.mem_cons_self)
    exact ih hsame' hbuf' (fun b hb => hforeign b (List.mem_cons_of_mem a hb))

/-- A packet of the message, as an arrival at this address. -/
def PacketOf (x : Sending) (addr : Addr) (i : ℕ) (a : Arrival) : Prop :=
  a.addr = addr ∧ ∃ chunk, x.chunks[i]? = some chunk ∧ a.data = x.packet C i chunk

theorem PacketOf.eq {i : ℕ} {a : Arrival} (h : PacketOf C x addr i a) :
    ∃ chunk, x.chunks[i]? = some chunk ∧ a = ⟨a.env, x.packet C i chunk, addr⟩ := by
  obtain ⟨haddr, chunk, hchunk, hdata⟩ := h
  exact ⟨chunk, hchunk, by rw [← haddr, ← hdata]⟩

theorem PacketOf.data_eq {i : ℕ} {a b : Arrival} (ha : PacketOf C x addr i a)
    (hb : PacketOf C x addr i b) : a.data = b.data := by
  obtain ⟨_, chunk, hchunk, hdata⟩ := ha
  obtain ⟨_, chunk', hchunk', hdata'⟩ := hb
  cases Option.some.inj (hchunk.symm.trans hchunk')
  exact hdata.trans hdata'.symm

theorem PacketOf.isMessage {i : ℕ} {a : Arrival} (h : PacketOf C x addr i a) (hx : x.Sendable) :
    IsMessage a.data := by
  obtain ⟨_, chunk, hchunk, hdata⟩ := h
  rw [hdata]
  exact isMessage_packet C x hx hchunk

/-- The copies of what a call of send() has sent are the packets of its message. -/
theorem copy_iff_packetOf (env : Env) (t : MeshTransport) (hudp : t.udpTransport = true)
    (pid : String) (message : Bytes) (hsession : t.sessions.get? pid = some session)
    (hsent : (send C env t pid message).raised = none) (addr : Addr) (a : Arrival) :
    Copy (send C env t pid message).effects addr a ↔
      ∃ i, PacketOf C (sending C env t session.sessionKey message) addr i a := by
  rw [(send_ok C env t pid message session hsession hsent).2, copy_iff C _ t hudp session.peerAddr]
  constructor
  · rintro ⟨haddr, i, chunk, hchunk, hdata⟩
    exact ⟨i, haddr, chunk, hchunk, hdata⟩
  · rintro ⟨i, haddr, chunk, hchunk, hdata⟩
    exact ⟨haddr, i, chunk, hchunk, hdata⟩

/-- There is room when the first packet of the message arrives, unless it has a buffer. -/
def RoomFor (x : Sending) (bufKey : String × ℕ) (addr : Addr) (t t' : MeshTransport)
    (arrivals : List Arrival) : Prop :=
  ∀ before a rest, arrivals = before ++ a :: rest → (∀ b ∈ before, Foreign t bufKey b) →
    (∃ i, PacketOf C x addr i a) → (after C t' before).fragBufs.size < maxReassemblyBufs

theorem openBuffer_ne_none {bufKey : String × ℕ} {chunks : List Bytes}
    (hbuf : Buffered t bufKey chunks kept)
    (hroom : kept = ∅ → t.fragBufs.size < maxReassemblyBufs) : openBuffer t bufKey ≠ none := by
  intro hopen
  have hlt := hroom (hbuf.eq_empty hopen)
  cases hbuf with
  | absent hget =>
    simp only [openBuffer, hget] at hopen
    split at hopen
    · omega
    · contradiction
  | present kept buf hne hget hcontent =>
    simp only [openBuffer, hget] at hopen
    contradiction

theorem about_packet (h : Reception C t addr peerId session x message) (i : ℕ) (a : Arrival)
    (ha : PacketOf C x addr i a) : about t a.data a.addr = some (peerId, x.msgId) := by
  obtain ⟨rfl, chunk, hchunk, hdata⟩ := ha
  have hparse := Sending.parse_packet C h.genuine.sendable hchunk
  rw [← hdata] at hparse
  simp only [about, hparse, h.holds.byAddr, Option.map_some,
    Sending.unpack_payload C h.genuine.sendable hchunk]

theorem packetOf_unique (h : Reception C t addr peerId session x message) {i j : ℕ} {a : Arrival}
    (hi : PacketOf C x addr i a) (hj : PacketOf C x addr j a) : i = j := by
  obtain ⟨_, chunk, hchunk, hdata⟩ := hi
  obtain ⟨_, chunk', hchunk', hdata'⟩ := hj
  exact packet_injective C x h.genuine.sendable hchunk hchunk' (hdata.symm.trans hdata')

/-- Once every packet has come, the last one completes what is kept. -/
theorem insert_missing (h : Reception C t addr peerId session x message) {missing : ℕ}
    {pre : List Arrival} {last : Arrival} (hlast : PacketOf C x addr missing last)
    (hkept : kept ⊆ Finset.range x.total)
    (hmem : ∀ a ∈ pre, ∀ i, PacketOf C x addr i a → i ∈ kept)
    (hall : ∀ j chunk, x.chunks[j]? = some chunk → ∃ a ∈ pre ++ [last], PacketOf C x addr j a) :
    insert missing kept = Finset.range x.total := by
  refine eq_of_subset_of_cover hkept ?_ (fun j hj => ?_)
  · obtain ⟨_, chunk, hchunk, _⟩ := hlast
    exact Finset.mem_range.mpr (List.getElem?_eq_some_iff.mp hchunk).1
  · obtain ⟨a, ha, hpacket⟩ := hall j _ (List.getElem?_eq_getElem (Finset.mem_range.mp hj))
    rcases List.mem_append.mp ha with ha | ha
    · exact Or.inl (hmem a ha j hpacket)
    · rw [List.mem_singleton.mp ha] at hpacket
      exact Or.inr (packetOf_unique C h hpacket hlast)

/-- If the first copy and those after it cause nothing, none of the list does. -/
theorem silent_cons (a : Arrival) (pre : List Arrival)
    (hfirst : (∃ i, PacketOf C x addr i a) → caused C t' a = [])
    (hrest : ∀ done b rest, pre = done ++ b :: rest → (∃ i, PacketOf C x addr i b) →
      caused C (after C (receive C t' a) done) b = []) :
    ∀ done b rest, a :: pre = done ++ b :: rest → (∃ i, PacketOf C x addr i b) →
      caused C (after C t' done) b = [] := by
  intro done b rest heq hpacket
  cases done with
  | nil =>
    cases heq
    exact hfirst hpacket
  | cons c done =>
    cases heq
    exact hrest done b rest rfl hpacket

/-- While one packet is missing, the others are kept and nothing is delivered. -/
theorem pending_run (haead : C.AeadCorrect) (h : Reception C t addr peerId session x message)
    (missing : ℕ) (last : Arrival) (hlast : PacketOf C x addr missing last) (pre : List Arrival)
    (hpre : ∀ a ∈ pre, (∃ i, i ≠ missing ∧ PacketOf C x addr i a) ∨
      Foreign t (peerId, x.msgId) a)
    (hsame : SameHandshakes t t') (hkept : kept ⊆ Finset.range x.total) (hmissing : missing ∉ kept)
    (hbuf : Buffered t' (peerId, x.msgId) x.chunks kept)
    (hroom : kept = ∅ → RoomFor C x (peerId, x.msgId) addr t t' (pre ++ [last])) :
    (∃ kept' : Finset ℕ, kept ⊆ kept' ∧ kept' ⊆ Finset.range x.total ∧ missing ∉ kept' ∧
      (∀ a ∈ pre, ∀ i, PacketOf C x addr i a → i ∈ kept') ∧
      Buffered (after C t' pre) (peerId, x.msgId) x.chunks kept' ∧
      openBuffer (after C t' pre) (peerId, x.msgId) ≠ none) ∧
    ∀ done a rest, pre = done ++ a :: rest → (∃ i, PacketOf C x addr i a) →
      caused C (after C t' done) a = [] := by
  induction pre generalizing t' kept with
  | nil =>
    refine ⟨⟨kept, Finset.Subset.refl kept, hkept, hmissing, by simp, hbuf, ?_⟩, by simp⟩
    exact openBuffer_ne_none hbuf fun hempty =>
      hroom hempty [] last [] rfl (by simp) ⟨missing, hlast⟩
  | cons a pre ih =>
    have hroom' : ∀ {u : MeshTransport}, receive C t' a = u → Foreign t (peerId, x.msgId) a →
        kept = ∅ → RoomFor C x (peerId, x.msgId) addr t u (pre ++ [last]) := by
      rintro u rfl ha hempty before b rest heq hbefore hb
      refine hroom hempty (a :: before) b rest (by rw [List.cons_append, heq, List.cons_append]) ?_ hb
      intro c hc
      rcases List.mem_cons.mp hc with rfl | hc
      · exact ha
      · exact hbefore c hc
    rcases hpre a List.mem_cons_self with ⟨i, hi, hpacket⟩ | hforeign
    · -- another fragment: it is kept, and the missing one keeps the message incomplete
      obtain ⟨chunk, hchunk, ha⟩ := hpacket.eq
      have hopen := openBuffer_ne_none hbuf fun hempty =>
        hroom hempty [] a (pre ++ [last]) rfl (by simp) ⟨i, hpacket⟩
      obtain ⟨hsame', hbuf', hcaused⟩ := copy_step C haead h hsame hkept hbuf hopen a.env i chunk
        hchunk
      obtain ⟨_, lastChunk, hlastChunk, _⟩ := hlast
      have hlt : missing < x.total := (List.getElem?_eq_some_iff.mp hlastChunk).1
      have hmissing' : missing ∉ insert i kept := by
        simp only [Finset.mem_insert, not_or]
        exact ⟨Ne.symm hi, hmissing⟩
      have hincomplete : insert i kept ≠ Finset.range x.total := fun heq =>
        hmissing' (heq ▸ Finset.mem_range.mpr hlt)
      have hi' : i < x.total := (List.getElem?_eq_some_iff.mp hchunk).1
      rw [← ha] at hsame' hbuf' hcaused
      rw [collect, if_neg hincomplete] at hbuf'
      rw [if_neg hincomplete] at hcaused
      obtain ⟨⟨kept', hsub, hrange, hmiss, hmem, hrest⟩, hsilent⟩ := ih
        (fun b hb => hpre b (List.mem_cons_of_mem a hb)) hsame'
        (Finset.insert_subset (Finset.mem_range.mpr hi') hkept) hmissing' hbuf'
        (fun hempty => absurd hempty (Finset.insert_ne_empty i kept))
      have hfirst : ∀ j, PacketOf C x addr j a → j ∈ kept' := by
        intro j hpacket'
        rw [← packetOf_unique C h hpacket hpacket']
        exact hsub (Finset.mem_insert_self i kept)
      exact ⟨⟨kept', (Finset.subset_insert i kept).trans hsub, hrange, hmiss,
        List.forall_mem_cons.mpr ⟨hfirst, hmem⟩, hrest⟩,
        silent_cons C a pre (fun _ => hcaused) hsilent⟩
    · obtain ⟨hsame', hbuf'⟩ := foreign_step C hsame hbuf a hforeign
      have hnot : ∀ i, ¬ PacketOf C x addr i a := fun i hpacket =>
        hforeign.2 (about_packet C h i a hpacket)
      obtain ⟨⟨kept', hsub, hrange, hmiss, hmem, hrest⟩, hsilent⟩ := ih
        (fun b hb => hpre b (List.mem_cons_of_mem a hb)) hsame' hkept hmissing hbuf'
        (hroom' rfl hforeign)
      have hfirst : (∃ i, PacketOf C x addr i a) → caused C t' a = [] := by
        rintro ⟨i, hpacket⟩
        exact absurd hpacket (hnot i)
      exact ⟨⟨kept', hsub, hrange, hmiss,
        List.forall_mem_cons.mpr ⟨fun i hpacket => absurd hpacket (hnot i), hmem⟩, hrest⟩,
        silent_cons C a pre hfirst hsilent⟩

theorem not_ack_of_foreign (h : Holds t addr peerId session) (hsame : SameHandshakes t t')
    (msgId : ℕ) (hid : msgId < 256 ^ 4) (a : Arrival) (ha : Foreign t (peerId, msgId) a)
    (packet : Bytes) (hsent : .sendto packet addr ∈ caused C t' a) (sid : Bytes) :
    parsePacket packet ≠ .ok ⟨.ack, sid, packBE 4 msgId⟩ := by
  obtain ⟨⟨asid, payload, hparse⟩, habout⟩ := ha
  rcases effects_message C a.env t' a.data asid payload a.addr hparse with
    hnone | ⟨peerId', session', message', hholds, _, heffects⟩
  · rw [caused, hnone] at hsent
    simp at hsent
  · rw [caused, heffects] at hsent
    rcases List.mem_append.mp hsent with hack | hcb
    · cases mem_sendRaw t' _ a.addr _ hack
      intro hparse'
      rw [ackPacket, parsePacket_frame _ _ _ _ (by rw [packBE_length]; decide)
        (computeMac_length C _ _ _)] at hparse'
      have hpayload := congrArg ParsedPacket.payload (Except.ok.inj hparse')
      have hlt : (unpackFragHeader payload).msgId < 256 ^ 4 := by
        apply Nat.lt_of_lt_of_le (unpackBE_lt (slice payload 0 4))
        apply Nat.pow_le_pow_right (by decide)
        simp only [slice, List.length_take]
        omega
      have hsameId := packBE_injective 4 _ _ hlt hid hpayload
      have hby := hholds.byAddr
      rw [hsame.sessionsByAddr, h.byAddr] at hby
      cases hby
      apply habout
      simp only [about, hparse, h.byAddr, Option.map_some, hsameId]
    · simp at hcb

end Receiving

section Result

/-- The message is delivered by its last packet, once, and acknowledged once; the
other copies cause nothing, and no buffer is left behind. -/
structure ReassembledOnce (t : MeshTransport) (sent : List Effect) (addr : Addr) (peerId : String)
    (key : SessionKey) (msgId : ℕ) (message : Bytes) (pre : List Arrival) (last : Arrival)
    (post : List Arrival) : Prop where
  silent : ∀ done a rest, pre = done ++ a :: rest → Copy sent addr a →
    caused C (after C t done) a = []
  delivered : caused C (after C t pre) last = .sendto (ackPacket C t.senderId key msgId) addr ::
    t.messageCbs.map (fun cb => .message cb peerId message)
  forgotten : ∀ done, done <+: post →
    (after C t (pre ++ last :: done)).fragBufs.get? (peerId, msgId) = none
  noOtherAck : ∀ done a rest, pre ++ last :: post = done ++ a :: rest →
    Foreign t (peerId, msgId) a → ∀ packet, .sendto packet addr ∈ caused C (after C t done) a →
    ∀ sid, parsePacket packet ≠ .ok ⟨.ack, sid, packBE 4 msgId⟩

/-- Whatever the order and the repetitions, fragments reassemble to the message. -/
theorem fragments_reassemble (haead : C.AeadCorrect) (ts tr : MeshTransport) (pid peerId : String)
    (ss sr : SessionInfo) (addr : Addr) (env : Env) (message : Bytes)
    (hsign : C.SignCorrect ts.identity.signingKeypair) (hsession : ts.sessions.get? pid = some ss)
    (hopen : ts.udpTransport = true) (hopen' : tr.udpTransport = true)
    (hholds : Holds tr addr peerId sr) (hkey : sr.sessionKey = ss.sessionKey)
    (hverify : sr.peerBundle.verifyKey = ts.identity.signingKeypair.verifyKey)
    (hsent : (send C env ts pid message).raised = none)
    (pre : List Arrival) (last : Arrival) (post : List Arrival)
    (hpre : ∀ a ∈ pre, Copy (send C env ts pid message).effects addr a ∧ a.data ≠ last.data ∨
      Foreign tr (peerId, ts.msgIdCounter) a)
    (hlast : Copy (send C env ts pid message).effects addr last)
    (hpost : ∀ a ∈ post, Foreign tr (peerId, ts.msgIdCounter) a)
    (hall : ∀ packet dest, .sendto packet dest ∈ (send C env ts pid message).effects →
      ∃ a ∈ pre ++ [last], a.addr = addr ∧ a.data = packet)
    (hnone : tr.fragBufs.get? (peerId, ts.msgIdCounter) = none)
    (hroom : ∀ before a rest, pre ++ [last] = before ++ a :: rest →
      (∀ b ∈ before, Foreign tr (peerId, ts.msgIdCounter) b) →
      Copy (send C env ts pid message).effects addr a →
      (after C tr before).fragBufs.size < maxReassemblyBufs) :
    ReassembledOnce C tr (send C env ts pid message).effects addr peerId ss.sessionKey
      ts.msgIdCounter message pre last post := by
  have hsendable := (send_ok C env ts pid message ss hsession hsent).1
  let x := sending C env ts ss.sessionKey message
  have h : Reception C tr addr peerId sr x message :=
    ⟨hholds, hkey, by rw [hverify]; exact genuine_sending C env ts ss.sessionKey message hsign hsendable⟩
  have hcopy : ∀ a, Copy (send C env ts pid message).effects addr a ↔ ∃ i, PacketOf C x addr i a :=
    copy_iff_packetOf C env ts hopen pid message hsession hsent addr
  obtain ⟨missing, hmissing⟩ := (hcopy last).mp hlast
  have hpre' : ∀ a ∈ pre, (∃ i, i ≠ missing ∧ PacketOf C x addr i a) ∨
      Foreign tr (peerId, x.msgId) a := by
    intro a ha
    rcases hpre a ha with ⟨hcopied, hne⟩ | hforeign
    · obtain ⟨i, hpacket⟩ := (hcopy a).mp hcopied
      refine Or.inl ⟨i, ?_, hpacket⟩
      rintro rfl
      exact hne (hpacket.data_eq C hmissing)
    · exact Or.inr hforeign
  obtain ⟨⟨kept, _, hkept, hnotKept, hmem, hbuf, hopenLast⟩, hsilent⟩ := pending_run C haead h
    missing last hmissing pre hpre' (.refl tr) (Finset.empty_subset _) (Finset.notMem_empty missing)
    (.absent hnone) (fun _ before a rest heq hbefore hpacket =>
      hroom before a rest heq hbefore ((hcopy a).mpr hpacket))
  have hmessage : ∀ a ∈ pre ++ last :: post, IsMessage a.data := by
    intro a ha
    rcases List.mem_append.mp ha with ha | ha
    · rcases hpre' a ha with ⟨i, _, hi⟩ | hforeign
      · exact hi.isMessage C h.genuine.sendable
      · exact hforeign.1
    · rcases List.mem_cons.mp ha with rfl | ha
      · exact hmissing.isMessage C h.genuine.sendable
      · exact (hpost a ha).1
  have hcomplete : insert missing kept = Finset.range x.total := by
    refine insert_missing C h hmissing hkept hmem fun j chunk hchunk => ?_
    obtain ⟨a, ha, haddr, hdata⟩ :=
      hall _ _ (sendto_packet C env ts pid message ss hsession hsent hopen j chunk hchunk)
    exact ⟨a, ha, haddr, chunk, hchunk, hdata⟩
  have hsame : ∀ done rest, pre ++ last :: post = done ++ rest →
      SameHandshakes tr (after C tr done) := by
    intro done rest heq
    refine after_same C (.refl tr) done (fun a ha => hmessage a ?_)
    rw [heq]
    exact List.mem_append_left rest ha
  obtain ⟨chunk, hchunk, hlastEq⟩ := hmissing.eq
  obtain ⟨hsameLast, hbufLast, hcaused⟩ := copy_step C haead h (hsame pre (last :: post) rfl) hkept
    hbuf hopenLast last.env missing chunk hchunk
  rw [← hlastEq] at hsameLast hbufLast hcaused
  rw [if_pos hcomplete] at hcaused
  rw [collect, if_pos hcomplete] at hbufLast
  constructor
  · intro done a rest heq hcopied
    exact hsilent done a rest heq ((hcopy a).mp hcopied)
  · rw [hcaused, delivery, sendRaw, if_pos hopen']
    rfl
  · intro done hdone
    have hbufDone := foreign_run C hsameLast hbufLast done (fun a ha => hpost a (hdone.subset ha))
    have hafter : after C tr (pre ++ last :: done) =
        after C (receive C (after C tr pre) last) done := Runs.run_append _ tr pre (last :: done)
    rw [hafter]
    cases hbufDone with
    | absent hget => exact hget
    | present kept buf hne _ _ => exact absurd rfl hne
  · intro done a rest heq hforeign packet hpacket sid
    exact not_ack_of_foreign C hholds (hsame done (a :: rest) heq) ts.msgIdCounter
      (hsendable missing chunk hchunk).1 a hforeign packet hpacket sid

end Result

section Stub

/-- A message of two fragments. -/
def longMessage : Bytes := List.replicate 2000 0

theorem holds_of_established {t : MeshTransport} {addr : Addr} {key : SessionKey}
    {bundle : PublicBundle} (h : Established t addr key bundle) :
    ∃ session, Holds t addr bundle.deviceId session ∧ session.peerAddr = addr ∧
      session.sessionKey = key ∧ session.peerBundle = bundle := by
  obtain ⟨session, hsession, heq⟩ := Option.map_eq_some_iff.mp h.session
  simp only [Prod.mk.injEq] at heq
  exact ⟨session, ⟨h.byAddr, hsession⟩, heq.1, heq.2.1, heq.2.2⟩

theorem chunks_le_two (C : Suite) (env : Env) (t : MeshTransport) (key : SessionKey)
    (message : Bytes) (hlen : sigSize + message.length ≤ 2 * maxFragPt) :
    (sending C env t key message).total ≤ 2 := by
  let whole := (C.signMessage message t.identity.signingKeypair.signingKey).toList ++ message
  have hwhole : whole.length = sigSize + message.length := by
    rw [List.length_append, List.Vector.toList_length]
  show (splitFragments whole).length ≤ 2
  by_cases hone : whole.length ≤ maxFragPt
  · have hpos : 0 < whole.length := by
      rw [hwhole]
      exact Nat.add_pos_left (by decide) _
    rw [splitFragments_single whole hpos hone]
    simp
  · rw [splitFragments_pair whole (by omega) (by omega)]
    simp

/-- The first message of a node goes out when one or two fragments hold it. -/
theorem sendable_first (C : Suite) (env : Env) {t : MeshTransport} (key : SessionKey)
    {message : Bytes} (hcounter : t.msgIdCounter = 1)
    (hlen : sigSize + message.length ≤ 2 * maxFragPt) : (sending C env t key message).Sendable := by
  have htotal := chunks_le_two C env t key message hlen
  rw [sendable_iff, hcounter]
  exact ⟨by decide, by omega⟩

/-- Alpha and bravo hold a session, and bravo will accept what alpha sends now. -/
theorem exists_reception (messageCbs : List Callback) (message : Bytes)
    (hlen : sigSize + message.length ≤ 2 * maxFragPt) : ∃ (a b : Node) (sa sb : SessionInfo),
    Reachable stub alpha a ∧ Reachable stub bravo b ∧ Holds a.transport bravoAddr "bravo" sa ∧
    sa.peerAddr = bravoAddr ∧ sa.sessionKey = sharedKey ∧
    Reception stub b.transport alphaAddr "alpha" sb
      (sending stub stillEnv a.transport sa.sessionKey message) message ∧
    sb.peerBundle.verifyKey = a.transport.identity.signingKeypair.verifyKey ∧
    OnlySessions alpha messageCbs .empty a.transport ∧
    OnlySessions bravo messageCbs .empty b.transport := by
  obtain ⟨a, b, hreachA, hreachB, hestA, hestB, hsessionsA, hsessionsB⟩ :=
    exists_established messageCbs .empty
  obtain ⟨sa, hholdsA, haddrA, hkeyA, _⟩ := holds_of_established hestA
  obtain ⟨sb, hholdsB, _, hkeyB, hbundleB⟩ := holds_of_established hestB
  obtain ⟨ta, hta, _, _, hsameA⟩ := hsessionsA
  have hcounter : a.transport.msgIdCounter = 1 := hsameA.msgIdCounter.trans hta.msgIdCounter
  have hidentity : a.transport.identity = alpha := hsameA.identity.trans hta.identity
  have hsendable := sendable_first stub stillEnv sa.sessionKey hcounter hlen
  have hsign : stub.SignCorrect a.transport.identity.signingKeypair := by
    rw [hidentity]
    exact honest_alpha.sign
  have hverify : sb.peerBundle.verifyKey = a.transport.identity.signingKeypair.verifyKey := by
    rw [hbundleB, hidentity]
    rfl
  refine ⟨a, b, sa, sb, hreachA, hreachB, hholdsA, haddrA, hkeyA,
    ⟨hholdsB, hkeyB.trans hkeyA.symm, ?_⟩, hverify, ⟨ta, hta, by assumption, by assumption, hsameA⟩,
    hsessionsB⟩
  rw [hverify]
  exact genuine_sending stub stillEnv a.transport sa.sessionKey message hsign hsendable

/-- A message of one fragment. -/
def shortMessage : Bytes := [104, 105]

theorem chunks_shortMessage (env : Env) (t : MeshTransport) (key : SessionKey) :
    ∃ whole, (sending stub env t key shortMessage).chunks = [whole] := by
  let whole := (stub.signMessage shortMessage t.identity.signingKeypair.signingKey).toList ++
    shortMessage
  have hwhole : whole.length = 66 := by
    rw [List.length_append, List.Vector.toList_length]
    rfl
  exact ⟨whole, splitFragments_single whole (by rw [hwhole]; decide) (by rw [hwhole]; decide)⟩

/-- The only packet of a message completes it. -/
theorem copy_single (haead : C.AeadCorrect) {t t' : MeshTransport} {addr : Addr} {peerId : String}
    {session : SessionInfo} {x : Sending} {message whole : Bytes}
    (h : Reception C t addr peerId session x message) (hchunks : x.chunks = [whole])
    (hsame : SameHandshakes t t') (hnone : t'.fragBufs.get? (peerId, x.msgId) = none)
    (hroom : t'.fragBufs.size < maxReassemblyBufs) (env : Env) :
    let a : Arrival := ⟨env, x.packet C 0 whole, addr⟩
    SameHandshakes t (receive C t' a) ∧
    (receive C t' a).fragBufs.get? (peerId, x.msgId) = none ∧
    caused C t' a = delivery C t addr peerId x.key x.msgId message := by
  have htotal : x.total = 1 := by rw [Sending.total, hchunks, List.length_singleton]
  have hchunk : x.chunks[0]? = some whole := by rw [hchunks]; rfl
  have hbuf : Buffered t' (peerId, x.msgId) x.chunks ∅ := .absent hnone
  have hfull : insert 0 (∅ : Finset ℕ) = Finset.range x.total := by rw [htotal]; rfl
  obtain ⟨hsame', hbuf', hcaused⟩ := copy_step C haead h hsame (Finset.empty_subset _) hbuf
    (openBuffer_ne_none hbuf (fun _ => hroom)) env 0 whole hchunk
  rw [if_pos hfull] at hcaused
  rw [collect, if_pos hfull] at hbuf'
  refine ⟨hsame', ?_, hcaused⟩
  cases hbuf' with
  | absent hget => exact hget
  | present kept buf hne _ _ => exact absurd rfl hne

/-- The second packet, the second again, and then the first. -/
theorem fragments_reassemble_swapped : ∃ (a b : Node) (first second : Arrival),
    Reachable stub alpha a ∧ Reachable stub bravo b ∧ first.data ≠ second.data ∧
    ReassembledOnce stub b.transport (send stub stillEnv a.transport "bravo" longMessage).effects
      alphaAddr "alpha" sharedKey a.transport.msgIdCounter longMessage [second, second] first [] := by
  obtain ⟨a, b, sa, sb, hreachA, hreachB, hholdsA, haddrA, hkeyA, hreception, hverify,
    ⟨ta, hta, _, _, hsameA⟩, ⟨tb, htb, _, _, hsameB⟩⟩ := exists_reception [0] longMessage (by
      rw [longMessage, List.length_replicate]
      decide)
  have hudpA := hsameA.udpTransport.trans hta.udpTransport
  have hbufs : b.transport.fragBufs = .empty := hsameB.fragBufs.trans htb.fragBufs
  let x := sending stub stillEnv a.transport sa.sessionKey longMessage
  let whole := (stub.signMessage longMessage a.transport.identity.signingKeypair.signingKey).toList ++
    longMessage
  have hwhole : whole.length = 2064 := by
    rw [List.length_append, List.Vector.toList_length, longMessage, List.length_replicate]
  have hchunks : x.chunks = [whole.take maxFragPt, whole.drop maxFragPt] :=
    splitFragments_pair whole (by rw [hwhole]; decide) (by rw [hwhole]; decide)
  have hsendable := hreception.genuine.sendable
  have hsent : (send stub stillEnv a.transport "bravo" longMessage).raised = none :=
    (send_raised_iff stub stillEnv a.transport "bravo" longMessage sa hholdsA.session).mpr hsendable
  have hcopy := copy_iff_packetOf stub stillEnv a.transport hudpA "bravo" longMessage hholdsA.session
    hsent alphaAddr
  have h₀ : x.chunks[0]? = some (whole.take maxFragPt) := by rw [hchunks]; rfl
  have h₁ : x.chunks[1]? = some (whole.drop maxFragPt) := by rw [hchunks]; rfl
  let first : Arrival := ⟨stillEnv, x.packet stub 0 (whole.take maxFragPt), alphaAddr⟩
  let second : Arrival := ⟨stillEnv, x.packet stub 1 (whole.drop maxFragPt), alphaAddr⟩
  have hfirst : Copy (send stub stillEnv a.transport "bravo" longMessage).effects alphaAddr first :=
    (hcopy first).mpr ⟨0, rfl, _, h₀, rfl⟩
  have hsecond : Copy (send stub stillEnv a.transport "bravo" longMessage).effects alphaAddr second :=
    (hcopy second).mpr ⟨1, rfl, _, h₁, rfl⟩
  have hne : second.data ≠ first.data := fun heq =>
    absurd (packet_injective stub x hsendable h₁ h₀ heq) (by decide)
  have hidentity : a.transport.identity = alpha := hsameA.identity.trans hta.identity
  have hsign : stub.SignCorrect a.transport.identity.signingKeypair := by
    rw [hidentity]
    exact honest_alpha.sign
  refine ⟨a, b, first, second, hreachA, hreachB, hne.symm, ?_⟩
  have hresult := fragments_reassemble stub stub_aeadCorrect a.transport b.transport "bravo" "alpha"
    sa sb alphaAddr stillEnv longMessage hsign hholdsA.session hudpA
    (hsameB.udpTransport.trans htb.udpTransport) hreception.holds hreception.key hverify hsent
    [second, second] first [] ?_ hfirst ?_ ?_ ?_ ?_
  · rw [hkeyA] at hresult
    exact hresult
  · intro c hc
    have hc' : c = second := by simpa using hc
    rw [hc']
    exact Or.inl ⟨hsecond, hne⟩
  · intro c hc
    simp at hc
  · intro packet dest hpacket
    obtain ⟨i, _, chunk, hchunk, hdata⟩ := (hcopy ⟨stillEnv, packet, alphaAddr⟩).mp ⟨rfl, dest, hpacket⟩
    have hi : i = 0 ∨ i = 1 := by
      have hlt := (List.getElem?_eq_some_iff.mp hchunk).1
      rw [hchunks, List.length_cons, List.length_singleton] at hlt
      omega
    rcases hi with rfl | rfl
    · cases Option.some.inj (h₀.symm.trans hchunk)
      exact ⟨first, by simp, rfl, hdata.symm⟩
    · cases Option.some.inj (h₁.symm.trans hchunk)
      exact ⟨second, by simp, rfl, hdata.symm⟩
  · rw [hbufs]
    rfl
  · intro before c rest heq hbefore _
    cases before with
    | nil =>
      show b.transport.fragBufs.size < maxReassemblyBufs
      rw [hbufs]
      decide
    | cons d before =>
      have hd : second = d := (List.cons.inj heq).1
      refine absurd ?_ (hbefore d List.mem_cons_self).2
      rw [← hd]
      exact about_packet stub hreception 1 second ⟨rfl, _, h₁, rfl⟩

end Stub

end Mesim.FragmentDelivery
