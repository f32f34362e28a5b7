import Mesim.BundleCodec
import Mesim.Duress
import Mesim.OriginatorSignatures

/-!
Which created identities can be published.
create_identity() upper-cases a callsign and matches it against _CALLSIGN_RE, whose
`$` also matches before a newline at the end of the text. So a callsign that ends in
a newline is created with its newline; every other one it creates is 1 to 32
characters of [A-Z0-9_-], and its bundle reaches the peers as it is stored.
-/
namespace Mesim.Callsigns

open Octets TextCodec Crypto Identity Packet IdentityFile BundleCodec OriginatorSignatures

/-- `str.upper`: each character becomes one or more, and a newline comes of a newline only. -/
structure UpperCase (upper : String → String) (mapping : Char → List Char) : Prop where
  chars : ∀ s, (upper s).toList = s.toList.flatMap mapping
  nonempty : ∀ c, mapping c ≠ []
  newline : mapping '\n' = ['\n']
  kept : ∀ c, '\n' ∈ mapping c → c = '\n'

/-- What the documentation of create_identity() and the wire format promise of an identity. -/
def Published (C : Suite) (identity : DeviceIdentity) : Prop :=
  Callsign identity.callsign ∧ ∃ wire bundle,
    packBundle (getPublicBundle C identity) = .ok wire ∧ unpackBundle wire = .ok bundle ∧
    bundle = getPublicBundle C identity ∧ verifyPublicBundle C bundle = .ok () ∧
    bundle.callsign = identity.callsign

section Newline

variable {upper : String → String} {mapping : Char → List Char}

theorem getLast?_upper (h : UpperCase upper mapping) (s : String) :
    (upper s).toList.getLast? = some '\n' ↔ s.toList.getLast? = some '\n' := by
  rw [h.chars]
  rcases s.toList.eq_nil_or_concat' with hnil | ⟨start, c, hc⟩
  · rw [hnil]
    rfl
  · rw [hc, List.flatMap_append, List.flatMap_singleton,
      List.getLast?_append_of_ne_nil _ (h.nonempty c), List.getLast?_concat, Option.some.injEq]
    constructor
    · intro hlast
      exact h.kept c (List.mem_of_getLast? hlast)
    · rintro rfl
      rw [h.newline]
      rfl

theorem newline_not_callsign {s : String} (h : s.toList.getLast? = some '\n') : ¬ Callsign s := by
  rintro ⟨_, _, hchars⟩
  exact absurd (hchars '\n' (List.mem_of_getLast? h)) (by decide)

/-- The regular expression admits a callsign, or one followed by a newline. -/
theorem callsign_of_matches {s : String} (h : callsignMatches s)
    (hlast : s.toList.getLast? ≠ some '\n') : Callsign s := by
  rcases h with hcallsign | ⟨hnewline, _⟩
  · exact hcallsign
  · exact absurd hnewline hlast

end Newline

section Published

variable (C : Suite)

theorem callsign_ascii {s : String} (h : Callsign s) : IsAscii s := by
  intro c hc
  have hall : callsignChars.all (fun c => c.toNat < 128) = true := by decide
  exact of_decide_eq_true (List.all_eq_true.mp hall c (h.2.2 c hc))

theorem uuidText_ascii {deviceId : String} (h : UuidText deviceId) :
    IsAscii deviceId ∧ deviceId.toList.length = 36 ∧ deviceId.toList.getLast? ≠ some '\x00' := by
  obtain ⟨digits, hlen, hhex, rfl⟩ := h
  have hall : ("-0123456789abcdef".toList).all (fun c => c.toNat < 128 ∧ c ≠ '\x00') = true := by
    decide
  have hmem : ∀ c ∈ (uuidText digits).toList, c.toNat < 128 ∧ c ≠ '\x00' := by
    intro c hc
    refine of_decide_eq_true (List.all_eq_true.mp hall c ?_)
    rcases mem_uuidText hc with rfl | hdigit
    · decide
    · exact List.mem_cons_of_mem '-' (hhex c hdigit)
  refine ⟨fun c hc => (hmem c hc).1, length_uuidText hlen, fun hlast => ?_⟩
  exact (hmem _ (List.mem_of_getLast? hlast)).2 rfl

/-- A callsign of the documented form, under a device id as uuid4() makes them, is carriable. -/
theorem carriable_bundle (identity : DeviceIdentity) (hid : UuidText identity.deviceId)
    (hcallsign : Callsign identity.callsign) : Carriable (getPublicBundle C identity) where
  deviceId_fits := by
    obtain ⟨hascii, hlen, _⟩ := uuidText_ascii hid
    exact (encodeUtf8_length hascii).le.trans hlen.le
  deviceId_end := (uuidText_ascii hid).2.2
  callsign_ascii := callsign_ascii hcallsign
  callsign_fits := hcallsign.2.1
  callsign_end := by
    intro hlast
    exact absurd (hcallsign.2.2 _ (List.mem_of_getLast? hlast)) (by decide)
  sig_length := List.Vector.toList_length _

theorem published_of_callsign (identity : DeviceIdentity) (hid : UuidText identity.deviceId)
    (hsign : C.SignCorrect identity.signingKeypair) (hcallsign : Callsign identity.callsign) :
    Published C identity := by
  obtain ⟨wire, hpack, _, hunpack⟩ :=
    unpackBundle_packBundle _ (carriable_bundle C identity hid hcallsign).publishable
  exact ⟨hcallsign, wire, _, hpack, hunpack, rfl, verify_getPublicBundle C identity hsign, rfl⟩

variable (R : Runtime)

theorem createIdentity_ok {draws : IdentityDraws} {callsign : String} {rank : Rank}
    {identity : DeviceIdentity} (h : createIdentity R draws callsign rank = .ok identity) :
    callsignMatches (R.upper callsign) ∧ identity.deviceId = draws.uuid ∧
      identity.callsign = R.upper callsign ∧
      identity.signingKeypair = ⟨draws.signingKey, R.ed25519Public draws.signingKey⟩ := by
  unfold createIdentity at h
  split at h
  · rename_i hmatch
    rw [← Except.ok.inj h]
    exact ⟨hmatch, rfl, rfl, rfl⟩
  · cases h

/-- A created identity is published as promised unless its callsign was given with a
newline at its end. -/
theorem created_published_iff {mapping : Char → List Char} (hupper : UpperCase R.upper mapping)
    (draws : IdentityDraws) (hid : UuidText draws.uuid)
    (hsign : C.SignCorrect ⟨draws.signingKey, R.ed25519Public draws.signingKey⟩)
    (callsign : String) (rank : Rank) (identity : DeviceIdentity)
    (h : createIdentity R draws callsign rank = .ok identity) :
    Published C identity ↔ callsign.toList.getLast? ≠ some '\n' := by
  obtain ⟨hmatch, huuid, hname, hkeys⟩ := createIdentity_ok R h
  constructor
  · rintro ⟨hcallsign, _⟩ hnewline
    rw [hname] at hcallsign
    exact newline_not_callsign ((getLast?_upper hupper callsign).mpr hnewline) hcallsign
  · intro hlast
    have hcallsign : Callsign identity.callsign := by
      rw [hname]
      exact callsign_of_matches hmatch fun hup => hlast ((getLast?_upper hupper callsign).mp hup)
    exact published_of_callsign C identity (huuid ▸ hid) (hkeys ▸ hsign) hcallsign

end Published

section Stub

theorem toUpper_newline (c : Char) (h : c.toUpper = '\n') : c = '\n' := by
  unfold Char.toUpper at h
  split at h
  · rename_i hlow
    -- an upper-cased letter is at least 'A'
    have hge : 97 ≤ c.val.toNat := hlow.1
    have hle : c.val.toNat ≤ 122 := hlow.2
    have hval := congrArg (fun x => x.val.toNat) h
    change (c.val + (65 - 97)).toNat = 10 at hval
    rw [UInt32.toNat_add] at hval
    change (c.val.toNat + 4294967264) % 4294967296 = 10 at hval
    omega
  · exact h

theorem upperCase_stub : UpperCase Duress.stubRuntime.upper (fun c => [c.toUpper]) where
  chars s := by
    rw [Duress.stubRuntime, String.toList_ofList, List.map_eq_flatMap]
  nonempty _ := List.cons_ne_nil _ _
  newline := by decide
  kept c hc := toUpper_newline c (List.mem_singleton.mp hc).symm

/-- Draws whose device id is the one of a test fleet. -/
def stubIdentityDraws : IdentityDraws where
  uuid := (RouteTables.duo.identity false).deviceId
  signingKey := ⟨List.Vector.replicate 32 1⟩
  encryptKey := ⟨List.Vector.replicate 32 1⟩
  kemKeypair := Honest.alpha.kemKeypair

theorem created_published_iff_abc : ∃ identity,
    createIdentity Duress.stubRuntime stubIdentityDraws "abc" .squad = .ok identity ∧
    (Published stub identity ↔ "abc".toList.getLast? ≠ some '\n') :=
  ⟨_, rfl, created_published_iff stub Duress.stubRuntime upperCase_stub stubIdentityDraws
    (uuidText_duo false) (stub_signCorrect _) "abc" .squad _ rfl⟩

/-- `"abc\n"` becomes the callsign `"ABC\n"`. -/
theorem newline_callsign_created : ¬ ∀ (R : Runtime) (mapping : Char → List Char)
    (draws : IdentityDraws) (callsign : String) (rank : Rank) (identity : DeviceIdentity),
    UpperCase R.upper mapping → UuidText draws.uuid →
    stub.SignCorrect ⟨draws.signingKey, R.ed25519Public draws.signingKey⟩ →
    createIdentity R draws callsign rank = .ok identity → Published stub identity := by
  intro h
  have hmatch : createIdentity Duress.stubRuntime stubIdentityDraws "abc\n" .squad =
      .ok ⟨stubIdentityDraws.uuid, "ABC\n", .squad, ⟨⟨List.Vector.replicate 32 1⟩,
        ⟨List.Vector.replicate 32 1⟩⟩, ⟨⟨List.Vector.replicate 32 1⟩,
        ⟨List.Vector.replicate 32 1⟩⟩, Honest.alpha.kemKeypair⟩ := rfl
  have hpublished := h Duress.stubRuntime _ stubIdentityDraws "abc\n" .squad _ upperCase_stub
    (uuidText_duo false) (stub_signCorrect _) hmatch
  exact newline_not_callsign (by decide) hpublished.1

end Stub

end Mesim.Callsigns
