import Mesim.RouterPackets

/-!
A network of honest routers.
Every packet a router has ever sent stays on the wire and may be delivered any
number of times, in any order, or never, to whichever node has the address.
What the transport there lets through comes to its router: a router's packets
carry no MAC, so where there is a session for the sender's address they are
dropped. Sessions come and go within a fixed graph, bundles are registered and
stale routes purged at any time.
-/
namespace Mesim.RouterNetwork

open Octets TextCodec Crypto Identity Packet Transport Router RouterPackets
open MeshTransport RouterOutcome

section Ids

/-- A device id without its dashes. -/
def hexDigits (deviceId : String) : List Char := deviceId.toList.filter (· ≠ '-')

def hexId (deviceId : String) : String := String.ofList (hexDigits deviceId)

/-- As `str(uuid.uuid4())` gives them. -/
def HexId (deviceId : String) : Prop :=
  (hexDigits deviceId).length = 32 ∧
    ∀ c ∈ hexDigits deviceId, c ∈ "0123456789abcdef".toList

instance (deviceId : String) : Decidable (HexId deviceId) :=
  have : Decidable (∀ c ∈ hexDigits deviceId, c ∈ "0123456789abcdef".toList) :=
    List.decidableBAll _ (hexDigits deviceId)
  inferInstanceAs (Decidable (_ ∧ _))

theorem hex_ascii (c : Char) (h : c ∈ "0123456789abcdef".toList) : c.toNat < 128 := by
  have hall : "0123456789abcdef".toList.all (fun c => c.toNat < 128) = true := by decide
  exact of_decide_eq_true (List.all_eq_true.mp hall c h)

theorem hexDigits_hexId (deviceId : String) : hexDigits (hexId deviceId) = hexDigits deviceId := by
  simp only [hexId, hexDigits, String.toList_ofList, List.filter_filter, Bool.and_self]

theorem hexId_hexId {deviceId : String} (h : HexId deviceId) : HexId (hexId deviceId) := by
  unfold HexId
  rw [hexDigits_hexId]
  exact h

theorem encodeAscii_hexDigits {deviceId : String} (h : HexId deviceId) :
    encodeAscii (String.ofList ((hexDigits deviceId).take 32)) =
      some ((hexDigits deviceId).map (fun c => UInt8.ofNat c.toNat)) := by
  rw [List.take_of_length_le (Nat.le_of_eq h.1), encodeAscii, if_pos]
  · rw [String.toList_ofList]
  · intro c hc
    rw [String.toList_ofList] at hc
    exact hex_ascii c (h.2 c hc)

/-- A hex id is its own sender id. -/
theorem senderIdBytes_hex {deviceId : String} (h : HexId deviceId) :
    ∃ senderId, senderIdBytes deviceId = .ok senderId ∧
      senderId.toList = (hexDigits deviceId).map (fun c => UInt8.ofNat c.toNat) := by
  have hencode := encodeAscii_hexDigits h
  have hlen : ((hexDigits deviceId).map (fun c => UInt8.ofNat c.toNat)).length = 32 := by
    rw [List.length_map, h.1]
  unfold senderIdBytes
  dsimp only
  split
  · rename_i b hb
    have heq : some b = some _ := hb.symm.trans hencode
    cases heq
    exact ⟨_, rfl, ljust_eq_self _ _ _ (Nat.le_of_eq hlen.symm)⟩
  · rename_i hnone
    have heq : none = some _ := hnone.symm.trans hencode
    contradiction

theorem ascii_hexDigits {deviceId : String} (h : HexId deviceId) :
    AsciiBytes ((hexDigits deviceId).map (fun c => UInt8.ofNat c.toNat)) := by
  intro x hx
  obtain ⟨c, hc, rfl⟩ := List.mem_map.mp hx
  have hlow := hex_ascii c (h.2 c hc)
  rw [UInt8.toNat_ofNat', Nat.mod_eq_of_lt (by omega)]
  exact hlow

theorem chars_hexDigits {deviceId : String} (h : HexId deviceId) :
    ((hexDigits deviceId).map (fun c => UInt8.ofNat c.toNat)).map (fun x => Char.ofNat x.toNat) =
      hexDigits deviceId := by
  rw [List.map_map]
  conv => rhs; rw [← List.map_id (hexDigits deviceId)]
  exact List.map_congr_left (fun c hc => ascii_byte_roundtrip c (hex_ascii c (h.2 c hc)))

theorem decodeAsciiReplace_hex {deviceId : String} (h : HexId deviceId) :
    decodeAsciiReplace ((hexDigits deviceId).map (fun c => UInt8.ofNat c.toNat)) =
      hexId deviceId := by
  have hmap : ((hexDigits deviceId).map (fun c => UInt8.ofNat c.toNat)).map
      (fun x => if x.toNat < 128 then Char.ofNat x.toNat else '\uFFFD') =
      ((hexDigits deviceId).map (fun c => UInt8.ofNat c.toNat)).map
        (fun x => Char.ofNat x.toNat) :=
    List.map_congr_left (fun x hx => if_pos (ascii_hexDigits h x hx))
  rw [decodeAsciiReplace, hmap, chars_hexDigits h, hexId]

theorem deviceIdFromBytes_hex {deviceId : String} (h : HexId deviceId) :
    deviceIdFromBytes ((hexDigits deviceId).map (fun c => UInt8.ofNat c.toNat)) =
      .ok (hexId deviceId) := by
  simp only [deviceIdFromBytes, decodeAscii, if_pos (ascii_hexDigits h), chars_hexDigits h, hexId]

end Ids

section System

variable {N : Type}

/-- The routers: their identities with distinct hex ids, their hop budgets and
addresses, and the graph of sessions they may open. -/
structure Fleet (N : Type) where
  identity : N → DeviceIdentity
  maxHops : N → ℕ
  addr : N → Addr
  link : N → N → Prop
  hex : ∀ i, HexId (identity i).deviceId
  distinct : Function.Injective fun i => hexId (identity i).deviceId

namespace Fleet

def id (F : Fleet N) (i : N) : String := hexId (F.identity i).deviceId

/-- The sender id of a node: the bytes of its hex id. -/
def senderId (F : Fleet N) (i : N) : Fixed 32 :=
  ⟨(hexDigits (F.identity i).deviceId).map (fun c => UInt8.ofNat c.toNat), by
    rw [List.length_map, (F.hex i).1]⟩

/-- A transport the node may have: its own, with sessions along links only. -/
structure Attachment (F : Fleet N) (i : N) where
  transport : MeshTransport
  senderId : transport.senderId = F.senderId i
  linked : ∀ session ∈ transport.sessions.values, ∀ j, F.addr j = session.peerAddr → F.link i j

theorem id_inj (F : Fleet N) {i j : N} (h : F.id i = F.id j) : i = j := F.distinct h

theorem senderIdBytes_deviceId (F : Fleet N) (i : N) :
    senderIdBytes (F.identity i).deviceId = .ok (F.senderId i) := by
  obtain ⟨senderId, hbytes, hlist⟩ := senderIdBytes_hex (F.hex i)
  rw [hbytes]
  exact congrArg Except.ok (Subtype.ext hlist)

theorem senderIdBytes_id (F : Fleet N) (i : N) :
    senderIdBytes (F.id i) = .ok (F.senderId i) := by
  obtain ⟨senderId, hbytes, hlist⟩ := senderIdBytes_hex (hexId_hexId (F.hex i))
  rw [hexDigits_hexId] at hlist
  rw [id, hbytes]
  exact congrArg Except.ok (Subtype.ext hlist)

theorem decode_senderId (F : Fleet N) (i : N) :
    decodeAsciiReplace (F.senderId i).toList = F.id i := decodeAsciiReplace_hex (F.hex i)

theorem deviceId_senderId (F : Fleet N) (i : N) :
    deviceIdFromBytes (F.senderId i).toList = .ok (F.id i) := deviceIdFromBytes_hex (F.hex i)

theorem senderId_inj (F : Fleet N) {i j : N} (h : F.senderId i = F.senderId j) : i = j := by
  apply F.id_inj
  rw [← F.decode_senderId, ← F.decode_senderId, h]

end Fleet

variable [DecidableEq N] (C : Suite) (F : Fleet N)

/-- The routers, their transports, and every packet sent so far: by whom, to which address. -/
structure Network where
  router : N → MeshRouter
  attachment : ∀ i, F.Attachment i
  wire : List (N × Addr × Bytes)

inductive Label where
  | broadcast (i : N) (timestamp : Timestamp)
  | deliver (source receiver : N) (packet : Bytes)
  | purge (i : N) (now : ℚ)
  | register (i : N) (peerId : String) (bundle : PublicBundle)
  | reconnect (i : N) (attachment : F.Attachment i)

def posted (i : N) (effects : List Effect) : List (N × Addr × Bytes) :=
  effects.filterMap fun e => match e with
    | .sendto packet addr => some (i, addr, packet)
    | _ => none

/-- What the router makes of an ORIGINATOR packet that has passed. -/
def receive (r : MeshRouter) (t : MeshTransport) (packet : Bytes) (fromAddr : Addr) :
    RouterOutcome :=
  match parsePacket packet with
  | .ok ⟨.originator, senderId, payload⟩ => handleOriginator C r t payload fromAddr senderId
  | _ => done r

variable {F}

def advance (s : Network F) (i : N) (out : RouterOutcome) : Network F :=
  { s with
    router := Function.update s.router i out.state
    wire := s.wire ++ posted i out.effects }

def step (s : Network F) : Label F → Network F
  | .broadcast i timestamp =>
    advance s i (broadcastOriginator C (s.router i) (s.attachment i).transport timestamp)
  | .deliver source receiver packet =>
    if (source, F.addr receiver, packet) ∈ s.wire ∧
        passes C (s.attachment receiver).transport packet (F.addr source) = true then
      advance s receiver (receive C (s.router receiver) (s.attachment receiver).transport packet
        (F.addr source))
    else s
  | .purge i now => { s with router := Function.update s.router i ((s.router i).purgeStale now) }
  | .register i peerId bundle =>
    { s with router := Function.update s.router i ((s.router i).registerBundle peerId bundle) }
  | .reconnect i attachment => { s with attachment := Function.update s.attachment i attachment }

/-- Routers as they are constructed, and nothing sent. -/
def Initial (s : Network F) : Prop :=
  (∀ i, s.router i = MeshRouter.init (F.identity i) (F.maxHops i)) ∧ s.wire = []

def Reachable (s : Network F) : Prop := Runs.Reachable (step C) Initial s

end System

end Mesim.RouterNetwork
