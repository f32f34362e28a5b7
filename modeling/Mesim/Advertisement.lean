import Mesim.Discovery
import Mesim.IdentityFile

/-!
Advertisements.
A node advertises the first 16 digits of its device id, its rank and its API port in
the TXT record of its service. Whoever hears the advertisement reads the same back,
and the node itself does not take it for a peer's.
-/
namespace Mesim.Advertisement

open Octets TextCodec Crypto Identity Discovery
open IdentityFile (rankNumber)

section Model

def serviceType : String := "_mesim._udp.local."

/-- `str(n)`. -/
def decimal : ℤ → String
  | .ofNat n => String.ofList (Nat.toDigits 10 n)
  | .negSucc n => String.ofList ('-' :: Nat.toDigits 10 (n + 1))

def idPrefix (identity : DeviceIdentity) : String := (MeshDiscovery.init identity).ownIdPrefix

/-- `text.encode("ascii")`. -/
def ascii (text : String) : Except PyError Bytes :=
  match encodeAscii text with
  | some b => .ok b
  | none => .error .unicodeError

/-- `_build_service_info`: the name of the service and what a request for it resolves to. -/
def buildServiceInfo (identity : DeviceIdentity) (hostIp : String) (port : ℕ) (apiPort : ℤ) :
    Except PyError (String × ServiceInfo) := do
  let idRaw ← ascii (idPrefix identity)
  let rankRaw ← ascii (decimal (rankNumber identity.rank))
  let apiRaw ← ascii (decimal apiPort)
  return (identity.callsign ++ "." ++ serviceType,
    { properties := (((OrderedDict.empty.set (encodeUtf8 "id") idRaw).set
        (encodeUtf8 "rank") rankRaw).set (encodeUtf8 "ver") protocolVer).set
        (encodeUtf8 "api") apiRaw
      addresses := [hostIp]
      port := port })

end Model

section Numbers

/-- The digits of a number are read back, whatever was read before them. -/
theorem digits_ofDigitChars (cs : List Char) (hcs : ∀ c ∈ cs, c.isDigit = true) (after : Bool) (n : ℕ)
    (hsome : after = true ∨ cs ≠ []) : digits after n cs = some (Nat.ofDigitChars 10 cs n) := by
  induction cs generalizing after n with
  | nil =>
    rw [digits, hsome.resolve_right (fun h => h rfl), if_pos rfl, Nat.ofDigitChars_nil]
  | cons c rest ih =>
    have hc := hcs c List.mem_cons_self
    have hrange : '0' ≤ c ∧ c ≤ '9' := by
      simpa [Char.isDigit, Char.le_def] using hc
    rw [digits, if_pos hrange, ih (fun d hd => hcs d (List.mem_cons_of_mem c hd)) true _ (Or.inl rfl),
      Nat.ofDigitChars_cons]

theorem trim_eq_self (cs : List Char) (h : ∀ c ∈ cs, isBlank c = false) : trim cs = cs := by
  have hdrop : ∀ l : List Char, (∀ c ∈ l, isBlank c = false) → l.dropWhile isBlank = l := by
    intro l hl
    cases l with
    | nil => rfl
    | cons c rest => rw [List.dropWhile_cons_of_neg (by simp [hl c List.mem_cons_self])]
  rw [trim, hdrop cs h, hdrop _ fun c hc => h c (List.mem_reverse.mp hc), List.reverse_reverse]

theorem not_isBlank_of_isDigit {c : Char} (h : c.isDigit = true) : isBlank c = false := by
  have hrange : 48 ≤ c.toNat := by
    simp only [Char.isDigit, Bool.and_eq_true, decide_eq_true_eq, UInt32.le_iff_toNat_le] at h
    exact h.1
  have hspace : c ≠ ' ' := by
    rintro rfl
    exact absurd hrange (by decide)
  simp only [isBlank, Bool.or_eq_false_iff, Bool.and_eq_false_iff, decide_eq_false_iff_not,
    beq_eq_false_iff_ne]
  exact ⟨hspace, Or.inr (by omega)⟩

theorem digits_toDigits (n : ℕ) : digits false 0 (Nat.toDigits 10 n) = some n := by
  rw [digits_ofDigitChars _ (fun c hc => Nat.isDigit_of_mem_toDigits (by decide) (by decide) hc) _ _
    (Or.inr Nat.toDigits_ne_nil), Nat.ofDigitChars_ten_toDigits]

/-- `int(str(n))` is `n`. -/
theorem parseInt_decimal (n : ℤ) : parseInt (decimal n) = some n := by
  have hblank : ∀ m : ℕ, ∀ c ∈ Nat.toDigits 10 m, isBlank c = false := fun m c hc =>
    not_isBlank_of_isDigit (Nat.isDigit_of_mem_toDigits (by decide) (by decide) hc)
  cases n with
  | ofNat m =>
    have hdigits := digits_toDigits m
    rw [parseInt, decimal, String.toList_ofList, trim_eq_self _ (hblank m)]
    cases hcs : Nat.toDigits 10 m with
    | nil => exact absurd hcs Nat.toDigits_ne_nil
    | cons c rest =>
      have hc : c.isDigit = true :=
        Nat.isDigit_of_mem_toDigits (by decide) (by decide) (hcs ▸ List.mem_cons_self)
      rw [hcs] at hdigits
      -- a digit is no sign
      have hsign : c ≠ '-' ∧ c ≠ '+' := by
        constructor <;> rintro rfl <;> exact absurd hc (by decide)
      split
      · rename_i heq
        exact absurd (List.cons.inj heq).1 hsign.1
      · rename_i heq
        exact absurd (List.cons.inj heq).1 hsign.2
      · rw [hdigits]
        rfl
  | negSucc m =>
    rw [parseInt, decimal, String.toList_ofList, trim_eq_self]
    · simp only [digits_toDigits]
      exact congrArg some (Int.negSucc_eq m).symm
    · intro c hc
      rcases List.mem_cons.mp hc with rfl | hc
      · decide
      · exact hblank _ c hc

theorem decodeAscii_of_ascii {text : String} {b : Bytes} (h : ascii text = .ok b) :
    decodeAscii b = some text := by
  unfold ascii at h
  split at h
  · rename_i raw hraw
    cases h
    exact decodeAscii_encodeAscii text _ hraw
  · contradiction

end Numbers

section Reading

theorem rankOf_rankNumber (rank : Rank) : rankOf (rankNumber rank) = some rank := by
  cases rank <;> rfl

/-- What a node advertises is read back as it is. -/
theorem read_serviceInfo {identity : DeviceIdentity} {hostIp name : String} {port : ℕ} {apiPort : ℤ}
    {info : ServiceInfo} (h : buildServiceInfo identity hostIp port apiPort = .ok (name, info)) :
    parseTxtProperties info.properties = some (idPrefix identity, identity.rank) ∧
      parseApiPort info.properties = apiPort ∧ info.addresses = [hostIp] ∧ info.port = port := by
  rw [buildServiceInfo] at h
  obtain ⟨idRaw, hid, h⟩ := bind_ok_iff.mp h
  obtain ⟨rankRaw, hrank, h⟩ := bind_ok_iff.mp h
  obtain ⟨apiRaw, hapi, h⟩ := bind_ok_iff.mp h
  cases h
  have hne : ∀ a b : String, a ≠ b → encodeUtf8 a ≠ encodeUtf8 b := fun a b hab heq =>
    hab (encodeUtf8_injective heq)
  refine ⟨?_, ?_, rfl, rfl⟩
  · simp only [parseTxtProperties, OrderedDict.get?_set, hne "api" "ver" (by decide),
      hne "api" "id" (by decide), hne "api" "rank" (by decide), hne "ver" "id" (by decide),
      hne "ver" "rank" (by decide), hne "rank" "id" (by decide), if_true, if_false, ne_eq,
      not_true, Option.bind_eq_bind, Option.bind_some, decodeAscii_of_ascii hid,
      decodeAscii_of_ascii hrank, parseInt_decimal, rankOf_rankNumber]
    rfl
  · have hread := decodeAscii_of_ascii hapi
    simp only [parseApiPort, OrderedDict.get?_set, if_true]
    cases apiRaw with
    | nil =>
      -- a number has at least one digit
      have hparse := parseInt_decimal apiPort
      have hempty : parseInt (String.ofList []) = none := by decide
      rw [← Option.some.inj hread] at hparse
      exact absurd (hempty.symm.trans hparse) (by simp)
    | cons x rest =>
      simp only [hread, Option.bind_some, parseInt_decimal, Option.getD_some]

end Reading

section Runs

/-- The cache of a node: filed under the ids it shows, and without the node itself. -/
structure Tidy (own : String) (d : MeshDiscovery) : Prop where
  ownIdPrefix : d.ownIdPrefix = own
  absent : d.peers.get? own = none
  keyed : ∀ deviceId peer, d.peers.get? deviceId = some peer → peer.deviceId = deviceId

variable {own : String} {d : MeshDiscovery}

theorem resolved_foreign {reply : Option ServiceInfo} {info : ServiceInfo} {deviceId addr : String}
    {rank : Rank} (h : resolved d reply = some (info, deviceId, rank, addr)) :
    deviceId ≠ d.ownIdPrefix := by
  rw [resolved] at h
  obtain ⟨info', _, h⟩ := Option.bind_eq_some_iff.mp h
  obtain ⟨⟨deviceId', rank'⟩, _, h⟩ := Option.bind_eq_some_iff.mp h
  dsimp only at h
  split at h
  · contradiction
  · rename_i hforeign
    obtain ⟨addr', _, h⟩ := Option.bind_eq_some_iff.mp h
    cases h
    exact hforeign

theorem Tidy.step (h : Tidy own d) (e : Event) : Tidy own (Discovery.step d e) := by
  cases e with
  | added name reply now =>
    cases hresolved : resolved d reply with
    | none =>
      rw [Discovery.step, handle, added_unresolved d name reply now hresolved]
      exact h
    | some found =>
      obtain ⟨info, deviceId, rank, addr⟩ := found
      have hforeign := resolved_foreign hresolved
      rw [h.ownIdPrefix] at hforeign
      simp only [Discovery.step, handle, onServiceAdded, hresolved]
      refine ⟨h.ownIdPrefix, ?_, fun id peer hpeer => ?_⟩
      · rw [OrderedDict.get?_set_of_ne _ _ hforeign]
        exact h.absent
      · rw [OrderedDict.get?_set] at hpeer
        split at hpeer
        · rename_i hid
          cases hpeer
          exact hid
        · exact h.keyed id peer hpeer
  | removed name =>
    simp only [Discovery.step, handle, onServiceRemoved]
    split
    · exact h
    · rename_i deviceId _
      refine ⟨h.ownIdPrefix, ?_, fun id peer hpeer => ?_⟩
      · rw [OrderedDict.get?_erase]
        split
        · rfl
        · exact h.absent
      · rw [OrderedDict.get?_erase] at hpeer
        split at hpeer
        · contradiction
        · exact h.keyed id peer hpeer
  | bundle deviceId bundle =>
    simp only [Discovery.step, handle, updatePeerBundle]
    split
    · exact h
    · rename_i peer hpeer
      have hne : deviceId ≠ own := by
        rintro rfl
        rw [h.absent] at hpeer
        contradiction
      refine ⟨h.ownIdPrefix, ?_, fun id peer' hpeer' => ?_⟩
      · rw [OrderedDict.get?_set_of_ne _ _ hne]
        exact h.absent
      · rw [OrderedDict.get?_set] at hpeer'
        split at hpeer'
        · rename_i hid
          cases hpeer'
          exact (h.keyed deviceId peer hpeer).trans hid
        · exact h.keyed id peer' hpeer'

theorem tidy_init (identity : DeviceIdentity) :
    Tidy (idPrefix identity) (MeshDiscovery.init identity) where
  ownIdPrefix := rfl
  absent := rfl
  keyed _ _ h := by contradiction

theorem tidy_run (identity : DeviceIdentity) (events : List Event) :
    Tidy (idPrefix identity) (Runs.run Discovery.step (MeshDiscovery.init identity) events) :=
  Runs.invariant_of_step (I := Tidy (idPrefix identity)) (fun _ e h => h.step e) _ events
    (tidy_init identity)

theorem resolved_advertised (h : Tidy own d) {identity : DeviceIdentity} {hostIp name : String}
    {port : ℕ} {apiPort : ℤ} {info : ServiceInfo}
    (hbuild : buildServiceInfo identity hostIp port apiPort = .ok (name, info)) :
    resolved d (some info) = if idPrefix identity = own then none
      else some (info, idPrefix identity, identity.rank, hostIp) := by
  obtain ⟨hparse, _, haddresses, _⟩ := read_serviceInfo hbuild
  simp only [resolved, Option.bind_eq_bind, Option.bind_some, hparse, haddresses, h.ownIdPrefix]
  split <;> rfl

/-- Another node's advertisement is cached as it was built, and reported if it is new. -/
theorem added_advertised (h : Tidy own d) {identity : DeviceIdentity} {hostIp name : String}
    {port : ℕ} {apiPort : ℤ} {info : ServiceInfo}
    (hbuild : buildServiceInfo identity hostIp port apiPort = .ok (name, info))
    (hother : idPrefix identity ≠ own) (now : ℚ) : ∃ peer,
      (Discovery.step d (.added name (some info) now)).peers.get? (idPrefix identity) = some peer ∧
      peer.deviceId = idPrefix identity ∧ peer.rank = identity.rank ∧ peer.addr = hostIp ∧
      peer.port = port ∧ peer.apiPort = apiPort ∧
      (handle d (.added name (some info) now)).2 =
        if d.peers.get? (idPrefix identity) = none then some (.discovered peer) else none := by
  have hresolved := resolved_advertised h hbuild
  obtain ⟨_, hapi, _, hport⟩ := read_serviceInfo hbuild
  rw [if_neg hother] at hresolved
  simp only [Discovery.step, handle, onServiceAdded, hresolved]
  refine ⟨_, OrderedDict.get?_set_self _ _ _, rfl, rfl, rfl, hport, hapi, ?_⟩
  simp only [Option.isNone_iff_eq_none]

/-- After any events, a node that hears another's advertisement caches it with the id, rank,
address and ports it was built with and reports it if it is new; its own it ignores, and it
never has itself for a peer. -/
theorem advertised_node_discovered (A B : DeviceIdentity) (hostIp name : String) (port : ℕ)
    (apiPort : ℤ) (info : ServiceInfo)
    (hbuild : buildServiceInfo A hostIp port apiPort = .ok (name, info)) (events : List Event)
    (now : ℚ) (d : MeshDiscovery) (hd : Runs.run Discovery.step (MeshDiscovery.init B) events = d) :
    d.peers.get? (idPrefix B) = none ∧
    (idPrefix A = idPrefix B → handle d (.added name (some info) now) = (d, none)) ∧
    (idPrefix A ≠ idPrefix B → ∃ peer,
      (Discovery.step d (.added name (some info) now)).peers.get? (idPrefix A) = some peer ∧
      peer.deviceId = idPrefix A ∧ peer.rank = A.rank ∧ peer.addr = hostIp ∧ peer.port = port ∧
      peer.apiPort = apiPort ∧
      (handle d (.added name (some info) now)).2 =
        if d.peers.get? (idPrefix A) = none then some (.discovered peer) else none) := by
  have htidy := tidy_run B events
  rw [hd] at htidy
  refine ⟨htidy.absent, fun hsame => ?_, fun hother => added_advertised htidy hbuild hother now⟩
  have hresolved := resolved_advertised htidy hbuild
  rw [if_pos hsame] at hresolved
  simp only [handle, onServiceAdded, hresolved]

theorem exists_service (hostIp : String) : ∃ info,
    buildServiceInfo Honest.alpha hostIp 7000 8080 = .ok ("A." ++ serviceType, info) := by
  have hid : (ascii (idPrefix Honest.alpha)).isOk = true := by decide +kernel
  have hrank : (ascii (decimal (rankNumber Honest.alpha.rank))).isOk = true := by decide +kernel
  have hapi : (ascii (decimal 8080)).isOk = true := by decide +kernel
  rw [buildServiceInfo]
  cases hid' : ascii (idPrefix Honest.alpha) with
  | error e => simp [hid', Except.isOk, Except.toBool] at hid
  | ok idRaw =>
    cases hrank' : ascii (decimal (rankNumber Honest.alpha.rank)) with
    | error e => simp [hrank', Except.isOk, Except.toBool] at hrank
    | ok rankRaw =>
      cases hapi' : ascii (decimal 8080) with
      | error e => simp [hapi', Except.isOk, Except.toBool] at hapi
      | ok apiRaw => exact ⟨_, rfl⟩

/-- Bravo has heard alpha from another address and lost it when alpha announces itself anew. -/
theorem advertised_node_discovered_alpha : ∃ moved info peer,
    let d := Runs.run Discovery.step (MeshDiscovery.init Honest.bravo)
      [.added ("A." ++ serviceType) (some moved) 0, .removed ("A." ++ serviceType)]
    buildServiceInfo Honest.alpha "10.0.0.9" 7000 8080 = .ok ("A." ++ serviceType, moved) ∧
    buildServiceInfo Honest.alpha "10.0.0.1" 7000 8080 = .ok ("A." ++ serviceType, info) ∧
    (Discovery.step d (.added ("A." ++ serviceType) (some info) 9)).peers.get?
      (idPrefix Honest.alpha) = some peer ∧ peer.addr = "10.0.0.1" ∧ peer.apiPort = 8080 := by
  obtain ⟨moved, hmoved⟩ := exists_service "10.0.0.9"
  obtain ⟨info, hinfo⟩ := exists_service "10.0.0.1"
  obtain ⟨_, _, hother⟩ := advertised_node_discovered Honest.alpha Honest.bravo "10.0.0.1" _ 7000 8080
    info hinfo [.added ("A." ++ serviceType) (some moved) 0, .removed ("A." ++ serviceType)] 9 _ rfl
  obtain ⟨peer, hget, _, _, haddr, _, hapi, _⟩ := hother (by decide)
  exact ⟨moved, info, peer, hmoved, hinfo, hget, haddr, hapi⟩

end Runs

end Mesim.Advertisement
