import Mesim.Datagrams
import Mesim.Floods
import Mesim.PacketFraming

/-!
What datagrams make transports send.
A transport answers a datagram at most once, to the address it came from, and its answer is
of a kind that nobody answers. So a network in which nothing but datagrams happens
comes to rest, whatever is on the wire, and nobody's answers exceed what was sent in
its name by more than the 16 bytes of a MAC for each datagram.
-/
namespace Mesim.Answers

open Octets TextCodec Crypto Identity Packet Transport Dispatch Fragments Honest
open SignedDelivery Reassembly Datagrams PacketFraming
open MeshTransport Outcome

section Model

structure Datagram where
  source : Addr
  dest : Addr
  data : Bytes
  deriving DecidableEq

/-- What the effects pass to the socket of the node at `source`. -/
def sent (source : Addr) (effects : List Effect) : List Datagram :=
  effects.filterMap fun e => match e with
    | .sendto packet dest => some ⟨source, dest, packet⟩
    | _ => none

/-- The kinds of packets that their handlers answer. -/
def asks (data : Bytes) : Bool :=
  match parsePacket data with
  | .error _ => false
  | .ok packet =>
    match packet.ptype with
    | .handshake | .keyInit | .message | .ping => true
    | _ => false

/-- The nodes, and what is on its way between any addresses, forged or not. -/
structure Network (N : Type*) where
  node : N → MeshTransport
  wire : List Datagram

/-- A datagram arrives at a node. -/
structure Delivery (N : Type*) where
  receiver : N
  env : Env
  datagram : Datagram

variable (C : Suite) {N : Type*} [DecidableEq N] (addr : N → Addr)

/-- Datagrams arrive once, in any order, at the node whose address they are for. -/
def Arrives (visit : Network N × Delivery N) : Prop :=
  visit.2.datagram ∈ visit.1.wire ∧ visit.2.datagram.dest = addr visit.2.receiver

instance : DecidablePred (Arrives addr) := fun _ => inferInstanceAs (Decidable (_ ∧ _))

def deliver (s : Network N) (l : Delivery N) : Network N :=
  if Arrives addr (s, l) then
    let out := dispatch C l.env (s.node l.receiver) l.datagram.data l.datagram.source
    ⟨Function.update s.node l.receiver out.state,
      s.wire.erase l.datagram ++ sent (addr l.receiver) out.effects⟩
  else s

/-- What a datagram brings to an address. -/
def volume (a : Addr) (d : Datagram) : ℕ := if d.dest = a then d.data.length else 0

/-- What the answer to a datagram can bring to an address. -/
def owed (a : Addr) (d : Datagram) : ℕ :=
  if d.source = a ∧ asks d.data = true then d.data.length + macSize else 0

/-- A sum over all that is on its way. -/
def total (f : Datagram → ℕ) (wire : List Datagram) : ℕ := (wire.map f).sum

/-- The datagrams that arrive in a run, each counted as `f` says. -/
def arrived (f : Datagram → ℕ) (s : Network N) (labels : List (Delivery N)) : ℕ :=
  ((Runs.visits (deliver C addr) s labels).map fun visit =>
    if Arrives addr visit then f visit.2.datagram else 0).sum

end Model

section Answers

variable (C : Suite)

/-- What a datagram makes its receiver send. -/
inductive Answered (data : Bytes) (source dest : Addr) : List Datagram → Prop
  | silent : Answered data source dest []
  | answered (answer : Bytes) (hasks : asks data = true) (hanswer : asks answer = false)
      (hsize : answer.length ≤ data.length + macSize) :
      Answered data source dest [⟨dest, source, answer⟩]

theorem sent_append (source : Addr) (effects effects' : List Effect) :
    sent source (effects ++ effects') = sent source effects ++ sent source effects' :=
  List.filterMap_append

theorem sent_eq_nil {source : Addr} {effects : List Effect}
    (h : ∀ packet dest, .sendto packet dest ∉ effects) : sent source effects = [] := by
  refine List.filterMap_eq_nil_iff.mpr fun e he => ?_
  cases e with
  | sendto packet dest => exact absurd he (h packet dest)
  | message | connected | sendFailed | ackReceived | rawPacket => rfl

theorem sent_callbacks (source : Addr) (cbs : List Callback) (notify : Callback → Effect)
    (h : ∀ cb packet dest, notify cb ≠ .sendto packet dest) :
    sent source (cbs.map notify) = [] := by
  refine sent_eq_nil fun packet dest hmem => ?_
  obtain ⟨cb, _, heq⟩ := List.mem_map.mp hmem
  exact h cb packet dest heq

/-- Of the shortest datagram of a payload only the MAC may be missing. -/
theorem payload_length_le {data : Bytes} {packet : ParsedPacket}
    (h : parsePacket data = .ok packet) : packet.payload.length + headerSize ≤ data.length := by
  obtain ⟨hlong, _, _, _, hpayload⟩ := (parsePacket_ok_iff data packet).mp h
  have hheader : headerSize ≤ data.length := le_trans (by decide) hlong
  rw [hpayload]
  simp only [slice, List.length_take, List.length_drop]
  omega

theorem overhead_le {data : Bytes} {packet : ParsedPacket} (h : parsePacket data = .ok packet) :
    overhead ≤ data.length :=
  ((parsePacket_ok_iff data packet).mp h).1

theorem asks_of_parse {data : Bytes} {packet : ParsedPacket} (h : parsePacket data = .ok packet)
    (hkind : packet.ptype = .handshake ∨ packet.ptype = .keyInit ∨ packet.ptype = .message ∨
      packet.ptype = .ping) : asks data = true := by
  rw [asks, h]
  rcases hkind with hkind | hkind | hkind | hkind <;> simp only [hkind]

/-- A built packet asks for an answer by its type alone. -/
theorem asks_buildPacket {ptype : PacketType} {senderId : Fixed 32} {payload packet : Bytes}
    {key : Option SessionKey} (h : buildPacket C ptype senderId payload key = .ok packet)
    (hkind : ptype ≠ .handshake ∧ ptype ≠ .keyInit ∧ ptype ≠ .message ∧ ptype ≠ .ping) :
    asks packet = false := by
  obtain ⟨hfits, mac, hmac, rfl, _⟩ := buildPacket_eq_frame C ptype senderId payload key packet h
  rw [asks, parsePacket_frame ptype senderId payload mac hfits hmac]
  obtain ⟨h₁, h₂, h₃, h₄⟩ := hkind
  cases ptype <;> first | rfl | contradiction

theorem answered_sendRaw (t : MeshTransport) {data packet : Bytes} (source dest : Addr)
    (hasks : asks data = true) (hanswer : asks packet = false)
    (hsize : packet.length ≤ data.length + macSize) :
    Answered data source dest (sent dest (t.sendRaw packet source)) := by
  unfold sendRaw
  split
  · exact .answered packet hasks hanswer hsize
  · exact .silent

theorem answered_handshake (t : MeshTransport) {data sid payload : Bytes} (source dest : Addr)
    (hparse : parsePacket data = .ok ⟨.handshake, sid, payload⟩) :
    Answered data source dest (sent dest (handleHandshake C t payload source).effects) := by
  have hlong := payload_length_le hparse
  unfold handleHandshake attempt
  dsimp only
  split
  · exact .silent
  · rename_i hlen
    split
    · exact .silent
    · rename_i bundle _
      have hself := sameTraffic_notePeerBundle t source bundle
      split
      · exact .silent
      · rename_i wire hwire
        split
        · exact .silent
        · rename_i packet hbuild
          have hsize := packBundle_own_length C _ wire hwire
          refine answered_sendRaw _ source dest (asks_of_parse hparse (Or.inl rfl))
            (asks_buildPacket C hbuild (by decide)) ?_
          rw [buildPacket_length C .handshakeResp _ wire none packet hbuild, hsize]
          simp only [not_not.mp hlen] at hlong
          simp only [overhead]
          omega

theorem answered_keyInit (env : Env) (t : MeshTransport) {data sid payload : Bytes}
    (source dest : Addr) (hparse : parsePacket data = .ok ⟨.keyInit, sid, payload⟩) :
    Answered data source dest (sent dest (handleKeyInit C env t payload source).effects) := by
  have hlong := payload_length_le hparse
  unfold handleKeyInit attempt
  dsimp only
  split
  · exact .silent
  · split
    · rename_i hlen
      split
      · exact .silent
      · split
        · exact .silent
        · rename_i packet hbuild
          rw [sent_append, sent_callbacks dest _ _ (fun _ _ _ => by simp), List.append_nil]
          refine answered_sendRaw _ source dest (asks_of_parse hparse (Or.inr (Or.inl rfl)))
            (asks_buildPacket C hbuild (by decide)) ?_
          rw [buildPacket_length C .keyAck _ _ none packet hbuild, keyAck_length]
          rw [hlen] at hlong
          simp only [overhead, headerSize, macSize, mlkemCtLen] at hlong ⊢
          omega
    · exact .silent

theorem answered_message (env : Env) (t : MeshTransport) {data sid payload : Bytes}
    (source dest : Addr) (hparse : parsePacket data = .ok ⟨.message, sid, payload⟩) :
    Answered data source dest (sent dest (dispatch C env t data source).effects) := by
  have hlong := overhead_le hparse
  rcases effects_message C env t data sid payload source hparse with
    hnone | ⟨peerId, session, message, _, _, heffects⟩
  · rw [hnone]
    exact .silent
  · have hbuild : buildPacket C .ack t.senderId (packBE 4 (unpackFragHeader payload).msgId)
        (some session.sessionKey) = .ok (ackPacket C t.senderId session.sessionKey
          (unpackFragHeader payload).msgId) :=
      buildPacket_keyed C .ack t.senderId _ session.sessionKey rfl (by rw [packBE_length]; decide)
    rw [heffects, delivery, sent_append, sent_callbacks dest _ _ (fun _ _ _ => by simp),
      List.append_nil]
    refine answered_sendRaw _ source dest (asks_of_parse hparse (Or.inr (Or.inr (Or.inl rfl))))
      (asks_buildPacket C hbuild (by decide)) ?_
    rw [buildPacket_length C .ack _ _ _ _ hbuild, packBE_length]
    simp only [overhead, macSize] at hlong ⊢
    omega

theorem answered_ping (env : Env) (t : MeshTransport) {data sid payload : Bytes} (peerId : String)
    (session : SessionInfo) (source dest : Addr)
    (hparse : parsePacket data = .ok ⟨.ping, sid, payload⟩) :
    Answered data source dest (sent dest (handlePing C env t source peerId session).effects) := by
  have hlong := overhead_le hparse
  unfold handlePing attempt
  split
  · exact .silent
  · rename_i packet hbuild
    refine answered_sendRaw _ source dest (asks_of_parse hparse (Or.inr (Or.inr (Or.inr rfl))))
      (asks_buildPacket C hbuild (by decide)) ?_
    rw [buildPacket_length C .pong _ _ _ _ hbuild, List.length_nil]
    omega

/-- Whatever a datagram is, it is answered at most once, and the answer asks for nothing. -/
theorem answered_dispatch (env : Env) (t : MeshTransport) (data : Bytes) (source dest : Addr) :
    Answered data source dest (sent dest (dispatch C env t data source).effects) := by
  cases hparse : parsePacket data with
  | error e =>
    simp only [dispatch, hparse]
    exact .silent
  | ok packet =>
    obtain ⟨ptype, sid, payload⟩ := packet
    by_cases hmessage : ptype = .message
    · subst hmessage
      exact answered_message C env t source dest hparse
    · simp only [dispatch, hparse]
      split
      · cases ptype with
        | message => exact absurd rfl hmessage
        | handshake => exact answered_handshake C t source dest hparse
        | keyInit => exact answered_keyInit C env t source dest hparse
        | handshakeResp =>
          simp only [handle, handshakeResp_effects]
          exact .silent
        | keyAck =>
          simp only [handle]
          rw [sent_eq_nil]
          · exact .silent
          · intro packet dest' hmem
            obtain ⟨cb, peerId, heq⟩ := keyAck_effects C env t payload source _ hmem
            contradiction
        | ack =>
          simp only [handle, handleAck]
          split
          · exact .silent
          · rw [sent_callbacks dest _ _ (fun _ _ _ => by simp)]
            exact .silent
        | ping =>
          simp only [handle]
          split
          · exact .silent
          · exact answered_ping C env t _ _ source dest hparse
        | pong => exact .silent
        | storeForward | originator =>
          simp only [handle]
          split <;> exact .silent
      · exact .silent

end Answers

section Runs

variable (C : Suite) {N : Type*} [DecidableEq N] (addr : N → Addr)

/-- A delivery takes a datagram off the wire and puts its answer on. -/
theorem deliver_cases (s : Network N) (l : Delivery N) :
    (¬ Arrives addr (s, l) ∧ deliver C addr s l = s) ∨
      (Arrives addr (s, l) ∧ ∃ answers,
        Answered l.datagram.data l.datagram.source l.datagram.dest answers ∧
        (deliver C addr s l).wire = s.wire.erase l.datagram ++ answers) := by
  by_cases harrives : Arrives addr (s, l)
  · refine Or.inr ⟨harrives, _, answered_dispatch C l.env (s.node l.receiver) l.datagram.data
      l.datagram.source l.datagram.dest, ?_⟩
    rw [deliver, if_pos harrives, harrives.2]
  · exact Or.inl ⟨harrives, if_neg harrives⟩

/-- Where a datagram is worth its arrival and its answer, every delivery pays for itself. -/
theorem pays_deliver {f g : Datagram → ℕ} (hsilent : ∀ d, f d ≤ g d)
    (hanswered : ∀ d answer, asks d.data = true → asks answer = false →
      answer.length ≤ d.data.length + macSize → f d + g ⟨d.dest, d.source, answer⟩ ≤ g d)
    (s : Network N) (l : Delivery N) :
    (if Arrives addr (s, l) then f l.datagram else 0) + total g (deliver C addr s l).wire ≤
      total g s.wire := by
  rcases deliver_cases C addr s l with ⟨hlost, hsame⟩ | ⟨harrives, answers, hanswer, hwire⟩
  · rw [if_neg hlost, hsame, zero_add]
  · have hsplit : g l.datagram + total g (s.wire.erase l.datagram) = total g s.wire :=
      List.sum_map_erase g harrives.1
    rw [if_pos harrives, hwire, total, List.map_append, List.sum_append]
    have hrest : ((s.wire.erase l.datagram).map g).sum = total g (s.wire.erase l.datagram) := rfl
    rw [hrest]
    generalize hd : l.datagram = d at *
    cases hanswer with
    | silent =>
      have hle := hsilent d
      simp only [List.map_nil, List.sum_nil]
      omega
    | answered answer hasks hquiet hsize =>
      have hle := hanswered d answer hasks hquiet hsize
      simp only [List.map_cons, List.map_nil, List.sum_cons, List.sum_nil]
      omega

theorem arrived_add_le {f g : Datagram → ℕ} (hsilent : ∀ d, f d ≤ g d)
    (hanswered : ∀ d answer, asks d.data = true → asks answer = false →
      answer.length ≤ d.data.length + macSize → f d + g ⟨d.dest, d.source, answer⟩ ≤ g d)
    (s : Network N) (labels : List (Delivery N)) :
    arrived C addr f s labels + total g (Runs.run (deliver C addr) s labels).wire ≤
      total g s.wire :=
  Floods.cost_add_le (fun s : Network N => total g s.wire)
    (fun s l => pays_deliver C addr hsilent hanswered s l) s labels

/-- What is on its way was there at first, or is an unanswered answer to what was. -/
def Traced (before : List Datagram) (wire : List Datagram) : Prop :=
  ∀ d ∈ wire, d ∈ before ∨ (asks d.data = false ∧
    ∃ q ∈ before, asks q.data = true ∧ q.source = d.dest ∧ q.dest = d.source)

theorem traced_deliver {before : List Datagram} (s : Network N) (l : Delivery N)
    (h : Traced before s.wire) : Traced before (deliver C addr s l).wire := by
  rcases deliver_cases C addr s l with ⟨_, hsame⟩ | ⟨harrives, answers, hanswer, hwire⟩
  · rw [hsame]
    exact h
  · rw [hwire]
    intro d hd
    rcases List.mem_append.mp hd with hold | hnew
    · exact h d (List.mem_of_mem_erase hold)
    · cases hanswer with
      | silent => exact absurd hnew List.not_mem_nil
      | answered answer hasks hquiet hsize =>
        rw [List.mem_singleton.mp hnew]
        refine Or.inr ⟨hquiet, l.datagram, ?_, hasks, rfl, rfl⟩
        rcases h _ harrives.1 with hbefore | ⟨hnot, _⟩
        · exact hbefore
        · rw [hasks] at hnot
          contradiction

theorem total_add (f g : Datagram → ℕ) (wire : List Datagram) :
    total (fun d => f d + g d) wire = total f wire + total g wire := by
  simp only [total, List.sum_map_add]

theorem total_le {f : Datagram → ℕ} {k : ℕ} (h : ∀ d, f d ≤ k) (wire : List Datagram) :
    total f wire ≤ k * wire.length := by
  induction wire with
  | nil => simp [total]
  | cons d rest ih =>
    have hd := h d
    have hmul : k * (d :: rest).length = k * rest.length + k := Nat.mul_succ k rest.length
    rw [hmul, total, List.map_cons, List.sum_cons]
    exact (Nat.add_comm _ _).trans_le (Nat.add_le_add ih hd)

/-- In a network where nothing but datagrams happens, whatever is on the wire: at most two arrive
for each that is there; an address gets at most what is under way to it and, for each datagram
in its name that asks for an answer, as much as that and a MAC; and all that is under way later
was there from the start or answers something that was, and asks for nothing itself. -/
theorem deliveries_settle (s : Network N) (labels : List (Delivery N)) :
    let s' := Runs.run (deliver C addr) s labels
    arrived C addr (fun _ => 1) s labels ≤ 2 * s.wire.length ∧
    (∀ a, arrived C addr (volume a) s labels + total (volume a) s'.wire ≤
      total (volume a) s.wire + total (owed a) s.wire) ∧
    Traced s.wire s'.wire := by
  intro s'
  refine ⟨?_, fun a => ?_, ?_⟩
  · have hcount := arrived_add_le C addr (f := fun _ => 1)
      (g := fun d => if asks d.data then 2 else 1) (fun d => by split <;> omega)
      (fun d answer hasks hquiet _ => by simp [hasks, hquiet]) s labels
    have hbound : total (fun d => if asks d.data then 2 else 1) s.wire ≤ 2 * s.wire.length :=
      total_le (fun d => by split <;> omega) s.wire
    omega
  · have hvolume := arrived_add_le C addr (f := volume a) (g := fun d => volume a d + owed a d)
      (fun d => Nat.le_add_right _ _) (fun d answer hasks hquiet hsize => ?_) s labels
    · rw [total_add, total_add] at hvolume
      exact le_trans (Nat.add_le_add_left (Nat.le_add_right _ _) _) hvolume
    · simp only [volume, owed, hasks, hquiet, and_true, Bool.false_eq_true, and_false, if_false]
      split <;> split <;> omega
  · exact Runs.invariant_of_step (I := fun s' : Network N => Traced s.wire s'.wire)
      (fun s' l h => traced_deliver C addr s' l h) s labels (fun d hd => Or.inl hd)

end Runs

end Mesim.Answers
