import Mesim.RouteTables

/-!
Which announcements a router checks.
register_bundle() files a bundle under the device id as it is written, dashes
included, while a received originator is looked up under the 32 digits on the
wire. So a registered bundle is never consulted, and an announcement is refused
only for the reasons that hold without it: it is the router's own, a bundle filed
under the digits rejects it, or an announcement at least as new was seen before.
-/
namespace Mesim.OriginatorSignatures

open Octets TextCodec Crypto Identity Packet Transport Router RouterPackets RouterNetwork
open Honest RouteTables MeshTransport RouterOutcome

section Uuid

/-- `UUID.__str__`: the 32 digits in five groups. -/
def uuidText (digits : List Char) : String :=
  String.ofList (digits.take 8 ++ '-' :: (digits.drop 8).take 4 ++ '-' :: (digits.drop 12).take 4 ++
    '-' :: (digits.drop 16).take 4 ++ '-' :: digits.drop 20)

theorem mem_uuidText {digits : List Char} {c : Char} (h : c ∈ (uuidText digits).toList) :
    c = '-' ∨ c ∈ digits := by
  rw [uuidText, String.toList_ofList] at h
  simp only [List.mem_append, List.mem_cons] at h
  rcases h with (((h | rfl | h) | rfl | h) | rfl | h) | rfl | h
  · exact .inr (List.mem_of_mem_take h)
  · exact .inl rfl
  · exact .inr (List.mem_of_mem_drop (List.mem_of_mem_take h))
  · exact .inl rfl
  · exact .inr (List.mem_of_mem_drop (List.mem_of_mem_take h))
  · exact .inl rfl
  · exact .inr (List.mem_of_mem_drop (List.mem_of_mem_take h))
  · exact .inl rfl
  · exact .inr (List.mem_of_mem_drop h)

theorem length_uuidText {digits : List Char} (h : digits.length = 32) :
    (uuidText digits).toList.length = 36 := by
  rw [uuidText, String.toList_ofList]
  simp only [List.length_append, List.length_cons, List.length_take, List.length_drop, h]
  rfl

/-- As create_identity() makes device ids. -/
def UuidText (deviceId : String) : Prop :=
  ∃ digits : List Char, digits.length = 32 ∧
    (∀ c ∈ digits, c ∈ "0123456789abcdef".toList) ∧ deviceId = uuidText digits

theorem dash_not_hex (c : Char) (h : c ∈ "0123456789abcdef".toList) : c ≠ '-' := by
  have hall : "0123456789abcdef".toList.all (fun c => c ≠ '-') = true := by decide
  exact of_decide_eq_true (List.all_eq_true.mp hall c h)

theorem hexDigits_uuidText (digits : List Char)
    (hhex : ∀ c ∈ digits, c ∈ "0123456789abcdef".toList) : hexDigits (uuidText digits) = digits := by
  have hkeep : ∀ l : List Char, l.Sublist digits → l.filter (· ≠ '-') = l := by
    intro l hl
    refine List.filter_eq_self.mpr fun c hc => ?_
    exact decide_eq_true (dash_not_hex c (hhex c (hl.subset hc)))
  have hpart : ∀ n m, ((digits.drop n).take m).filter (· ≠ '-') = (digits.drop n).take m :=
    fun n m => hkeep _ ((List.take_sublist _ _).trans (List.drop_sublist _ _))
  have hdash : ∀ l : List Char, ('-' :: l).filter (· ≠ '-') = l.filter (· ≠ '-') :=
    fun l => List.filter_cons_of_neg (by simp)
  have hjoin : ∀ n m, (digits.drop n).take m ++ digits.drop (n + m) = digits.drop n := by
    intro n m
    rw [← List.drop_drop, List.take_append_drop]
  rw [hexDigits, uuidText, String.toList_ofList, List.filter_append, List.filter_append,
    List.filter_append, List.filter_append, hdash, hdash, hdash, hdash,
    hkeep _ (List.take_sublist 8 digits), hpart 8 4, hpart 12 4, hpart 16 4,
    hkeep _ (List.drop_sublist 20 digits), List.append_assoc, hjoin 16 4, List.append_assoc,
    hjoin 12 4, List.append_assoc, hjoin 8 4, List.take_append_drop]

theorem hexId_of_uuidText {deviceId : String} (h : UuidText deviceId) : HexId deviceId := by
  obtain ⟨digits, hlen, hhex, rfl⟩ := h
  rw [HexId, hexDigits_uuidText digits hhex]
  exact ⟨hlen, hhex⟩

/-- The text with its dashes is never the text without them. -/
theorem hexId_ne {deviceId : String} (h : UuidText deviceId) : deviceId ≠ hexId deviceId := by
  obtain ⟨digits, hlen, hhex, rfl⟩ := h
  intro heq
  have hdash : '-' ∈ (uuidText digits).toList := by
    rw [uuidText, String.toList_ofList]
    simp
  rw [heq, hexId, String.toList_ofList, hexDigits_uuidText digits hhex] at hdash
  exact dash_not_hex _ (hhex _ hdash) rfl

end Uuid

section Router

variable (C : Suite)

/-- What can happen at one router. -/
inductive RouterEvent where
  | broadcast (t : MeshTransport) (timestamp : Timestamp)
  | originator (t : MeshTransport) (payload : Bytes) (fromAddr : Addr) (senderId : Bytes)
  | purge (now : ℚ)
  | register (peerId : String) (bundle : PublicBundle)

def routerStep (r : MeshRouter) : RouterEvent → MeshRouter
  | .broadcast t timestamp => (broadcastOriginator C r t timestamp).state
  | .originator t payload fromAddr senderId =>
    (handleOriginator C r t payload fromAddr senderId).state
  | .purge now => r.purgeStale now
  | .register peerId bundle => r.registerBundle peerId bundle

/-- The string that the originator signs. -/
def signedBytes (o : Originator) : Bytes :=
  o.oidBytes.toList ++ packBE 4 o.seqNum ++ o.timestamp.raw.toList ++ packBE 1 o.maxHops

theorem originatorSignedBytes_unpacked (payload : Bytes) (o : Originator)
    (h : unpackOriginator payload = .ok o) :
    originatorSignedBytes o.oidBytes o.seqNum o.maxHops o.timestamp = .ok (signedBytes o) := by
  obtain ⟨hseq, _, hmax⟩ := unpackOriginator_fits payload o h
  rw [originatorSignedBytes, if_pos hseq, if_pos hmax]
  rfl

/-- Nothing comes of the announcement: no route, no memory of it, nothing sent. -/
def Ignored (r : MeshRouter) (out : RouterOutcome) : Prop :=
  out.state.routes = r.routes ∧ out.state.seenSeq = r.seenSeq ∧ out.effects = []

/-- A bundle is filed under this id and its key rejects the signature. -/
def RejectedBy (r : MeshRouter) (oid : String) (o : Originator) : Prop :=
  ∃ bundle, r.knownBundles.get? oid = some bundle ∧
    C.verifySignature (signedBytes o) o.sig bundle.verifyKey ≠ .ok ()

/-- The router has seen an announcement of this originator at least as new. -/
def SeenBefore (r : MeshRouter) (oid : String) (o : Originator) : Prop :=
  ∃ seen, r.seenSeq.get? oid = some seen ∧ o.seqNum ≤ seen

theorem any_seen_iff (r : MeshRouter) (key : String) (o : Originator) :
    (r.seenSeq.get? key).any (fun seen => o.seqNum ≤ seen) = true ↔ SeenBefore r key o := by
  simp only [Option.any_eq_true, decide_eq_true_eq, SeenBefore]

theorem signatureAccepted_eq (r : MeshRouter) (payload : Bytes) (o : Originator)
    (h : unpackOriginator payload = .ok o) :
    (signatureAccepted C r o = .ok () ∧
        ¬ RejectedBy C r (decodeAsciiReplace o.oidBytes.toList) o) ∨
      (signatureAccepted C r o = .error .invalidSignature ∧
        RejectedBy C r (decodeAsciiReplace o.oidBytes.toList) o) := by
  have hsigned := originatorSignedBytes_unpacked payload o h
  cases hbundle : r.knownBundles.get? (decodeAsciiReplace o.oidBytes.toList) with
  | none =>
    refine Or.inl ⟨by simp only [signatureAccepted, hbundle], ?_⟩
    rintro ⟨bundle, hget, _⟩
    rw [hbundle] at hget
    contradiction
  | some bundle =>
    have heq : signatureAccepted C r o =
        C.verifySignature (signedBytes o) o.sig bundle.verifyKey := by
      simp only [signatureAccepted, hbundle, hsigned, bind, Except.bind]
    by_cases hverify : C.ed25519Verify bundle.verifyKey (signedBytes o) o.sig = true
    · have hok : C.verifySignature (signedBytes o) o.sig bundle.verifyKey = .ok () := by
        rw [Suite.verifySignature, if_pos hverify]
      refine Or.inl ⟨heq.trans hok, ?_⟩
      rintro ⟨bundle', hget, hreject⟩
      cases Option.some.inj (hbundle.symm.trans hget)
      exact hreject hok
    · have herror : C.verifySignature (signedBytes o) o.sig bundle.verifyKey =
          .error .invalidSignature := by
        rw [Suite.verifySignature, if_neg hverify]
      refine Or.inr ⟨heq.trans herror, bundle, hbundle, ?_⟩
      rw [herror]
      exact fun heq => by contradiction

/-- The router with the announcement noted as seen. -/
def noted (r : MeshRouter) (o : Originator) : MeshRouter :=
  { r with seenSeq := r.seenSeq.set (decodeAsciiReplace o.oidBytes.toList) o.seqNum }

/-- What becomes of an announcement that is not refused. -/
def accepted (r : MeshRouter) (t : MeshTransport) (o : Originator) (fromAddr : Addr)
    (senderId : Bytes) : RouterOutcome :=
  attempt (noted r o) (deviceIdFromBytes senderId) fun nextHopId =>
    forwardOriginator C ((noted r o).updateRoute (decodeAsciiReplace o.oidBytes.toList) nextHopId
      fromAddr (o.hopCount + 1) o.seqNum o.timestamp) t o fromAddr

theorem seenSeq_accepted (r : MeshRouter) (t : MeshTransport) (o : Originator) (fromAddr : Addr)
    (senderId : Bytes) :
    (accepted C r t o fromAddr senderId).state.seenSeq =
      r.seenSeq.set (decodeAsciiReplace o.oidBytes.toList) o.seqNum := by
  unfold accepted attempt
  split
  · rfl
  · rw [(sendsOnly_forward C _ t o fromAddr _ rfl).1]
    unfold MeshRouter.updateRoute
    dsimp only
    repeat' split
    all_goals rfl

theorem handleOriginator_accepted (r : MeshRouter) (t : MeshTransport) (payload : Bytes)
    (fromAddr : Addr) (senderId : Bytes) (o : Originator) (h : unpackOriginator payload = .ok o)
    (hown : o.oidBytes ≠ t.senderId) (haccepted : signatureAccepted C r o = .ok ())
    (hseen : ¬ SeenBefore r (decodeAsciiReplace o.oidBytes.toList) o) :
    handleOriginator C r t payload fromAddr senderId = accepted C r t o fromAddr senderId := by
  have hany : ¬ (r.seenSeq.get? (decodeAsciiReplace o.oidBytes.toList)).any
      (fun seen => o.seqNum ≤ seen) = true := fun hany => hseen ((any_seen_iff r _ o).mp hany)
  simp only [handleOriginator, h, if_neg hown, haccepted, if_neg hany]
  rfl

/-- An announcement is ignored when it is the router's own, a bundle filed under the
digits rejects it, or one at least as new was seen before. -/
theorem ignored_iff (r : MeshRouter) (t : MeshTransport) (payload : Bytes) (fromAddr : Addr)
    (senderId : Bytes) (o : Originator) (h : unpackOriginator payload = .ok o) :
    Ignored r (handleOriginator C r t payload fromAddr senderId) ↔
      o.oidBytes = t.senderId ∨ RejectedBy C r (decodeAsciiReplace o.oidBytes.toList) o ∨
        SeenBefore r (decodeAsciiReplace o.oidBytes.toList) o := by
  by_cases hown : o.oidBytes = t.senderId
  · refine iff_of_true ?_ (Or.inl hown)
    simp only [handleOriginator, h, if_pos hown]
    exact ⟨rfl, rfl, rfl⟩
  · rcases signatureAccepted_eq C r payload o h with ⟨haccepted, hnot⟩ | ⟨herror, hrejected⟩
    · by_cases hseen : SeenBefore r (decodeAsciiReplace o.oidBytes.toList) o
      · refine iff_of_true ?_ (Or.inr (Or.inr hseen))
        obtain ⟨seen, hget, hle⟩ := hseen
        simp only [handleOriginator, h, if_neg hown, haccepted, hget, Option.any_some,
          decide_eq_true hle, if_true]
        exact ⟨rfl, rfl, rfl⟩
      · refine iff_of_false (fun hignored => hseen ?_) ?_
        · have hset := hignored.2.1
          rw [handleOriginator_accepted C r t payload fromAddr senderId o h hown haccepted hseen,
            seenSeq_accepted] at hset
          exact ⟨o.seqNum, OrderedDict.eq_of_set_eq_self _ _ _ hset, le_rfl⟩
        · rintro (heq | hrejected | hseen')
          · exact hown heq
          · exact hnot hrejected
          · exact hseen hseen'
    · refine iff_of_true ?_ (Or.inr (Or.inl hrejected))
      simp only [handleOriginator, h, if_neg hown, herror]
      exact ⟨rfl, rfl, rfl⟩

theorem decode_senderIdBytes {deviceId : String} (h : HexId deviceId) (oidBytes : Fixed 32)
    (hoid : senderIdBytes deviceId = .ok oidBytes) :
    decodeAsciiReplace oidBytes.toList = hexId deviceId := by
  obtain ⟨senderId, hbytes, hlist⟩ := senderIdBytes_hex h
  cases Except.ok.inj (hoid.symm.trans hbytes)
  rw [hlist, decodeAsciiReplace_hex h]

/-- Once D's bundle is registered under D's device id, an announcement in D's name that
D has not signed is ignored, in whatever state the router gets to, exactly when it would
be without that bundle: the router is D itself, a bundle filed under the 32 digits of the
id rejects the signature, or an announcement at least as new was seen before. -/
theorem forged_ignored_iff (D : DeviceIdentity) (hD : UuidText D.deviceId) (r₀ : MeshRouter)
    (events : List RouterEvent) (t : MeshTransport) (payload : Bytes) (fromAddr : Addr)
    (senderId : Bytes) (o : Originator) (hunpack : unpackOriginator payload = .ok o)
    (hoid : senderIdBytes D.deviceId = .ok o.oidBytes)
    (_ : C.verifySignature (signedBytes o) o.sig D.signingKeypair.verifyKey ≠ .ok ()) :
    let r := Runs.run (routerStep C) (r₀.registerBundle D.deviceId (getPublicBundle C D)) events
    Ignored r (handleOriginator C r t payload fromAddr senderId) ↔
      o.oidBytes = t.senderId ∨ RejectedBy C r (hexId D.deviceId) o ∨
        SeenBefore r (hexId D.deviceId) o := by
  intro r
  rw [ignored_iff C r t payload fromAddr senderId o hunpack,
    decode_senderIdBytes (hexId_of_uuidText hD) o.oidBytes hoid]

/-- Filed under the digits, D's bundle does what it is for. -/
theorem forged_ignored_of_digits (D : DeviceIdentity) (hD : HexId D.deviceId) (r : MeshRouter)
    (t : MeshTransport) (payload : Bytes) (fromAddr : Addr) (senderId : Bytes) (o : Originator)
    (hunpack : unpackOriginator payload = .ok o)
    (hoid : senderIdBytes D.deviceId = .ok o.oidBytes)
    (hforged : C.verifySignature (signedBytes o) o.sig D.signingKeypair.verifyKey ≠ .ok ())
    (hfiled : r.knownBundles.get? (hexId D.deviceId) = some (getPublicBundle C D)) :
    Ignored r (handleOriginator C r t payload fromAddr senderId) := by
  rw [ignored_iff C r t payload fromAddr senderId o hunpack, decode_senderIdBytes hD o.oidBytes hoid]
  exact Or.inr (Or.inl ⟨_, hfiled, hforged⟩)

end Router

section Stub

theorem uuidText_duo (i : Bool) : UuidText (duo.identity i).deviceId := by
  have hhex : ∀ digits : List Char,
      digits.all (fun c => "0123456789abcdef".toList.contains c) = true →
        ∀ c ∈ digits, c ∈ "0123456789abcdef".toList := by
    intro digits hall c hc
    exact List.contains_iff_mem.mp (List.all_eq_true.mp hall c hc)
  cases i with
  | false => exact ⟨"0000000000004000800000000000000a".toList, by decide, hhex _ (by decide),
      by decide⟩
  | true => exact ⟨"0000000000004000800000000000000b".toList, by decide, hhex _ (by decide),
      by decide⟩

/-- An announcement in the first router's name with a signature of zeros. -/
def forged : Originator :=
  ⟨duo.senderId false, 1, 0, defaultMaxHops, epoch, List.replicate 64 0⟩

def forgedPayload : Bytes :=
  originatorFields (duo.senderId false) 1 0 defaultMaxHops epoch ++ List.replicate 64 0

theorem unpack_forgedPayload : unpackOriginator forgedPayload = .ok forged :=
  unpackOriginator_fields (duo.senderId false) 1 0 defaultMaxHops epoch _ (by decide)
    List.length_replicate

theorem forged_unsigned : stub.verifySignature (signedBytes forged) forged.sig
    (duo.identity false).signingKeypair.verifyKey ≠ .ok () := by
  decide +kernel

/-- The second router, given the first one's bundle. -/
def informed : MeshRouter :=
  (MeshRouter.init (duo.identity true) defaultMaxHops).registerBundle (duo.identity false).deviceId
    (getPublicBundle stub (duo.identity false))

/-- Given it once more, under the digits of the id. -/
def informedOfDigits : MeshRouter :=
  informed.registerBundle (hexId (duo.identity false).deviceId)
    (getPublicBundle stub (duo.identity false))

theorem forged_ignored_iff_duo :
    (Ignored informed (handleOriginator stub informed (duoTransport true) forgedPayload alphaAddr
      (duo.senderId false).toList) ↔
      forged.oidBytes = (duoTransport true).senderId ∨
        RejectedBy stub informed (hexId (duo.identity false).deviceId) forged ∨
          SeenBefore informed (hexId (duo.identity false).deviceId) forged) ∧
    Ignored informedOfDigits (handleOriginator stub informedOfDigits (duoTransport true) forgedPayload
      alphaAddr (duo.senderId false).toList) := by
  refine ⟨?_, ?_⟩
  · exact forged_ignored_iff stub (duo.identity false) (uuidText_duo false)
      (MeshRouter.init (duo.identity true) defaultMaxHops) [] (duoTransport true) forgedPayload
      alphaAddr (duo.senderId false).toList forged unpack_forgedPayload
      (duo.senderIdBytes_deviceId false) forged_unsigned
  · exact forged_ignored_of_digits stub (duo.identity false) (hexId_of_uuidText (uuidText_duo false)) _
      (duoTransport true) forgedPayload alphaAddr (duo.senderId false).toList forged
      unpack_forgedPayload (duo.senderIdBytes_deviceId false) forged_unsigned
      (OrderedDict.get?_set_self _ _ _)

/-- The forged announcement becomes a route although the bundle is registered. -/
theorem forged_originator_accepted : ¬ ∀ (D : DeviceIdentity), UuidText D.deviceId →
    ∀ (r₀ : MeshRouter) (events : List RouterEvent) (t : MeshTransport) (payload : Bytes)
      (fromAddr : Addr) (senderId : Bytes) (o : Originator), unpackOriginator payload = .ok o →
    senderIdBytes D.deviceId = .ok o.oidBytes →
    stub.verifySignature (signedBytes o) o.sig D.signingKeypair.verifyKey ≠ .ok () →
    let r := Runs.run (routerStep stub) (r₀.registerBundle D.deviceId (getPublicBundle stub D)) events
    Ignored r (handleOriginator stub r t payload fromAddr senderId) := by
  intro hclaim
  have hignored : Ignored informed (handleOriginator stub informed (duoTransport true) forgedPayload
      alphaAddr (duo.senderId false).toList) :=
    hclaim (duo.identity false) (uuidText_duo false)
      (MeshRouter.init (duo.identity true) defaultMaxHops) [] (duoTransport true) forgedPayload
      alphaAddr _ forged unpack_forgedPayload (duo.senderIdBytes_deviceId false) forged_unsigned
  rw [ignored_iff stub informed (duoTransport true) forgedPayload alphaAddr _ forged
    unpack_forgedPayload, decode_senderIdBytes (hexId_of_uuidText (uuidText_duo false))
      forged.oidBytes (duo.senderIdBytes_deviceId false)] at hignored
  rcases hignored with hown | ⟨bundle, hget, _⟩ | ⟨seen, hget, _⟩
  · exact absurd (duo.senderId_inj hown) (by decide)
  · have hnone : informed.knownBundles.get? (hexId (duo.identity false).deviceId) = none :=
      OrderedDict.get?_set_of_ne _ _ (hexId_ne (uuidText_duo false))
    rw [hnone] at hget
    contradiction
  · contradiction

end Stub

end Mesim.OriginatorSignatures
