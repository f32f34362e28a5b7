import Mesim.Callsigns
import Mesim.NodeRuns

/-!
The program on one path.
Each invocation either creates an identity or runs a node. The first invocation that can create
one founds the path: from then on the identity file stays as it is, and only the founder's
passphrase gives the identity and starts the node, whatever the other arguments are.
-/
namespace Mesim.Invocations

open Octets TextCodec Crypto Base64 Identity Json IdentityFile Duress MessageStore MessageLog
open ForwardQueue NodeRuns

section Model

/-- The arguments of main(), and what its run draws and does. -/
structure Invocation where
  create : Option String
  rank : String
  identityDraws : IdentityDraws
  saveDraws : SaveDraws
  run : NodeRun

/-- The files; the identity file need not be there. -/
structure Site where
  identity : Option Value
  msgs : Database
  fwd : Table

inductive Failure where
  | fileNotFound
  | raised (e : PyError)

/-- main() returns a code, or an exception leaves it. -/
inductive Exit where
  | code (n : ℕ)
  | uncaught (e : Failure)

/-- How an invocation ends, and the identity that it has printed. -/
structure Reply where
  exit : Exit
  identity : Option LoadedIdentity

variable (C : Suite) (R : StoreRuntime) (sha256 : Bytes → Fixed 32)

/-- `_rank_from_str`. -/
def rankFromStr (rankStr : String) : Except PyError Rank :=
  let name := R.upper rankStr
  if name = "COMMAND" then .ok .command
  else if name = "OFFICER" then .ok .officer
  else if name = "NCO" then .ok .nco
  else if name = "SQUAD" then .ok .squad
  else
    .error (.valueError ("Invalid rank " ++ reprText rankStr ++
      ". Valid values: COMMAND, OFFICER, NCO, SQUAD"))

def newIdentity (i : Invocation) (callsign : String) : Except PyError DeviceIdentity := do
  let rank ← rankFromStr R i.rank
  createIdentity R.toRuntime i.identityDraws callsign rank

/-- The new identity, and the file that save_identity() writes. -/
def createAt (i : Invocation) (callsign : String) : Except PyError (DeviceIdentity × Value) := do
  let identity ← newIdentity R i callsign
  let doc ← saveIdentity C R.toRuntime i.saveDraws (loaded identity) (.text i.run.passphrase) none
  return (identity, doc)

/-- `load_or_create_identity`: what it returns or raises, and the file it leaves. -/
def loadOrCreateIdentity (file : Option Value) (i : Invocation) (callsign : Option String) :
    Except Failure LoadedIdentity × Option Value :=
  match callsign, file with
  | some callsign, none =>
    match createAt C R i callsign with
    | .error e => (.error (.raised e), none)
    | .ok (identity, doc) => (.ok (loaded identity), some doc)
  | none, none => (.error .fileNotFound, none)
  | _, some doc =>
    let (result, doc) := loadIdentity C R.toRuntime i.run.loadDraws doc (.text i.run.passphrase)
    (result.mapError .raised, some doc)

/-- `args.create`: an empty callsign is none. -/
def createMode (i : Invocation) : Option String := i.create.filter fun callsign => callsign ≠ ""

/-- What main() does with a failed creation. -/
def createFailed : Failure → Exit
  | .fileNotFound => .uncaught .fileNotFound
  | .raised e => if e.isValueError then .code 1 else .uncaught (.raised e)

/-- main() in run mode, on a file that is there. -/
def runMode (disk : Disk) (i : Invocation) : Reply × Disk :=
  (match (load C R disk i.run).1 with
    | .error _ => ⟨.code 1, none⟩
    | .ok identity =>
      ⟨match (openStore R disk.msgs i.run).1 with
        | .error e => .uncaught (.raised e)
        | .ok _ => .code 0, some identity⟩,
    NodeRuns.main C R sha256 disk i.run)

/-- `main`. -/
def main (site : Site) (i : Invocation) : Reply × Site :=
  match createMode i with
  | some callsign =>
    let (result, file) := loadOrCreateIdentity C R site.identity i (some callsign)
    (match result with
      | .error e => ⟨createFailed e, none⟩
      | .ok identity => ⟨.code 0, some identity⟩, { site with identity := file })
  | none =>
    match site.identity with
    | none => (⟨.code 1, none⟩, site)
    | some doc =>
      let (reply, disk) := runMode C R sha256 ⟨doc, site.msgs, site.fwd⟩ i
      (reply, ⟨some disk.identity, disk.msgs, disk.fwd⟩)

def step (site : Site) (i : Invocation) : Site := (main C R sha256 site i).2

/-- The identity that an invocation creates where there is none. -/
def founded (i : Invocation) : Option DeviceIdentity :=
  (createMode i).bind fun callsign => (newIdentity R i callsign).toOption

/-- What an invocation does on the path of an identity. -/
structure Serves (passphrase : String) (identity : DeviceIdentity) (site : Site)
    (i : Invocation) : Prop where
  /-- Creating or running, the passphrase gives the identity. -/
  own : i.run.passphrase = passphrase →
    (main C R sha256 site i).1 = ⟨.code 0, some (loaded identity)⟩
  starts : i.run.passphrase = passphrase → createMode i = none →
    ∃ doc, site.identity = some doc ∧ Starts C R sha256 (⟨doc, site.msgs, site.fwd⟩, i.run)
  other : i.run.passphrase ≠ passphrase → main C R sha256 site i =
    (⟨if (createMode i).isSome then .uncaught (.raised .invalidTag) else .code 1, none⟩, site)
  kept : (step C R sha256 site i).identity = site.identity

/-- Secret keys embed their public keys. -/
def Generated (i : Invocation) : Prop :=
  i.identityDraws.kemKeypair.publicKey = embeddedKemPub i.identityDraws.kemKeypair.secretKey

end Model

section Founding

variable {C : Suite} {R : StoreRuntime} (sha256 : Bytes → Fixed 32) {passphrases : List Passphrase}
variable {site : Site} {i : Invocation} {identity : DeviceIdentity}

/-- The two ways in which there is nothing to create are both a ValueError. -/
theorem newIdentity_isValueError {callsign : String} {e : PyError}
    (h : newIdentity R i callsign = .error e) : e.isValueError = true := by
  simp only [newIdentity, bind, Except.bind] at h
  split at h
  · rename_i e' hrank
    cases h
    simp only [rankFromStr] at hrank
    repeat' split at hrank
    all_goals cases hrank
    rfl
  · unfold createIdentity at h
    split at h
    · cases h
    · cases h
      rfl

theorem newIdentity_keysMatch {callsign : String} (h : newIdentity R i callsign = .ok identity)
    (hgenerated : Generated i) : KeysMatch R.toRuntime (loaded identity) := by
  simp only [newIdentity, bind, Except.bind] at h
  split at h
  · cases h
  · unfold createIdentity at h
    split at h
    · cases h
      exact ⟨rfl, rfl, hgenerated⟩
    · cases h

/-- Without an identity, an invocation that cannot create one changes nothing. -/
theorem main_unfounded (hnone : site.identity = none) (h : founded R i = none) :
    main C R sha256 site i = (⟨.code 1, none⟩, site) := by
  unfold main
  cases hmode : createMode i with
  | none => simp only [hnone]
  | some callsign =>
    rw [founded, hmode, Option.bind_some] at h
    cases hcreate : newIdentity R i callsign with
    | ok identity =>
      rw [hcreate] at h
      contradiction
    | error e =>
      have hcreated : createAt C R i callsign = .error e := by
        simp only [createAt, hcreate, bind, Except.bind]
      simp only [loadOrCreateIdentity, hnone, hcreated, createFailed,
        newIdentity_isValueError hcreate, if_true]
      rw [← hnone]

/-- The first invocation that can create the identity writes its file. -/
theorem main_founded (hsecure : Secure C R.toRuntime passphrases)
    (hmem : Passphrase.text i.run.passphrase ∈ passphrases) (hnone : site.identity = none)
    (h : founded R i = some identity) (hgenerated : Generated i) :
    KeysMatch R.toRuntime (loaded identity) ∧ ∃ doc,
      saveIdentity C R.toRuntime i.saveDraws (loaded identity) (.text i.run.passphrase) none =
        .ok doc ∧
      main C R sha256 site i =
        (⟨.code 0, some (loaded identity)⟩, { site with identity := some doc }) := by
  obtain ⟨callsign, hmode, hcreate⟩ := Option.bind_eq_some_iff.mp h
  obtain ⟨key, _, hsave⟩ := save_plain hsecure i.saveDraws (loaded identity) hmem
  cases hnew : newIdentity R i callsign with
  | error e =>
    rw [hnew] at hcreate
    contradiction
  | ok created =>
    rw [hnew] at hcreate
    cases hcreate
    have hcreated : createAt C R i callsign = .ok (identity,
        .obj (savedMembers C R.toRuntime i.saveDraws (loaded identity) key [])) := by
      simp only [createAt, hnew, hsave, bind, Except.bind]
      rfl
    refine ⟨newIdentity_keysMatch hnew hgenerated, _, hsave, ?_⟩
    simp only [main, hmode, loadOrCreateIdentity, hnone, hcreated]

end Founding

section Serving

variable {C : Suite} {R : StoreRuntime} {sha256 : Bytes → Fixed 32}
variable {passphrases : List String} {passphrase : String} {site : Site} {i : Invocation}
variable {identity : DeviceIdentity} {doc : Value}

/-- The identity file is as it was saved for the passphrase, and the other files, if they have
been opened, are the passphrase's too. -/
structure Owned (C : Suite) (R : StoreRuntime) (sha256 : Bytes → Fixed 32) (passphrase : String)
    (identity : DeviceIdentity) (doc : Value) (site : Site) : Prop where
  file : site.identity = some doc
  keys : KeysMatch R.toRuntime (loaded identity)
  saved : ∃ draws,
    saveIdentity C R.toRuntime draws (loaded identity) (.text passphrase) none = .ok doc
  stores : Fresh ⟨doc, site.msgs, site.fwd⟩ ∨ Keyed C R sha256 passphrase ⟨doc, site.msgs, site.fwd⟩

/-- What load_identity() makes of the file. -/
theorem Owned.load (h : Owned C R sha256 passphrase identity doc site)
    (hsecure : Secure C R.toRuntime (passphrases.map .text)) (haead : C.AeadCorrect)
    (hown : passphrase ∈ passphrases) (hmem : i.run.passphrase ∈ passphrases) :
    loadIdentity C R.toRuntime i.run.loadDraws doc (.text i.run.passphrase) =
      (if i.run.passphrase = passphrase then .ok (loaded identity) else .error .invalidTag,
        doc) := by
  obtain ⟨draws, hsave⟩ := h.saved
  rw [load_plain hsecure haead draws _ (loaded identity) h.keys doc (List.mem_map_of_mem hown)
    (List.mem_map_of_mem hmem) hsave]
  by_cases hsame : i.run.passphrase = passphrase
  · rw [if_pos hsame, if_pos (by rw [hsame])]
  · rw [if_neg hsame, if_neg fun heq => hsame (text_injective heq)]

/-- Asked to create what is there, the program loads it. -/
theorem Owned.create (h : Owned C R sha256 passphrase identity doc site)
    (hsecure : Secure C R.toRuntime (passphrases.map .text)) (haead : C.AeadCorrect)
    (hown : passphrase ∈ passphrases) (hmem : i.run.passphrase ∈ passphrases) {callsign : String}
    (hmode : createMode i = some callsign) :
    main C R sha256 site i = (if i.run.passphrase = passphrase then
      ⟨.code 0, some (loaded identity)⟩ else ⟨.uncaught (.raised .invalidTag), none⟩, site) := by
  have hload := h.load (i := i) hsecure haead hown hmem
  have hsite : { site with identity := some doc } = site := by rw [← h.file]
  by_cases hsame : i.run.passphrase = passphrase
  · rw [if_pos hsame] at hload ⊢
    simp only [main, hmode, loadOrCreateIdentity, h.file, hload, Except.mapError, hsite]
  · rw [if_neg hsame] at hload ⊢
    simp only [main, hmode, loadOrCreateIdentity, h.file, hload, Except.mapError, hsite]
    rfl

theorem main_run (sha256 : Bytes → Fixed 32) (hmode : createMode i = none)
    (hfile : site.identity = some doc) : main C R sha256 site i =
      ((runMode C R sha256 ⟨doc, site.msgs, site.fwd⟩ i).1,
        ⟨some (NodeRuns.main C R sha256 ⟨doc, site.msgs, site.fwd⟩ i.run).identity,
          (NodeRuns.main C R sha256 ⟨doc, site.msgs, site.fwd⟩ i.run).msgs,
          (NodeRuns.main C R sha256 ⟨doc, site.msgs, site.fwd⟩ i.run).fwd⟩) := by
  simp only [main, hmode, hfile]
  rfl

/-- Another passphrase leaves all files as they are. -/
theorem Owned.refuse (h : Owned C R sha256 passphrase identity doc site)
    (hsecure : Secure C R.toRuntime (passphrases.map .text)) (haead : C.AeadCorrect)
    (hown : passphrase ∈ passphrases) (hmem : i.run.passphrase ∈ passphrases)
    (hmode : createMode i = none) (hother : i.run.passphrase ≠ passphrase) :
    main C R sha256 site i = (⟨.code 1, none⟩, site) := by
  have hload := h.load (i := i) hsecure haead hown hmem
  rw [if_neg hother] at hload
  have hresult : NodeRuns.load C R ⟨doc, site.msgs, site.fwd⟩ i.run = (.error .invalidTag, doc) :=
    hload
  have hrefused : ¬ Accepted C R (⟨doc, site.msgs, site.fwd⟩, i.run) := by
    rw [Accepted, hresult]
    exact Bool.false_ne_true
  obtain ⟨hmsgs, hfwd⟩ := main_refused sha256 _ i.run hrefused
  have hidentity := main_identity (C := C) (R := R) sha256 ⟨doc, site.msgs, site.fwd⟩ i.run
  rw [hresult] at hidentity
  rw [main_run sha256 hmode h.file]
  simp only [runMode, hresult, hidentity, hmsgs, hfwd, ← h.file]

/-- Its own passphrase starts the node, which leaves the files its own. -/
theorem Owned.start (h : Owned C R sha256 passphrase identity doc site)
    (hsecure : Secure C R.toRuntime (passphrases.map .text)) (haead : C.AeadCorrect)
    (htellable : Tellable R passphrases) (hown : passphrase ∈ passphrases)
    (hmode : createMode i = none) (hsame : i.run.passphrase = passphrase) :
    (main C R sha256 site i).1 = ⟨.code 0, some (loaded identity)⟩ ∧
      Starts C R sha256 (⟨doc, site.msgs, site.fwd⟩, i.run) ∧
      Owned C R sha256 passphrase identity doc (main C R sha256 site i).2 := by
  have hmem : i.run.passphrase ∈ passphrases := by
    rw [hsame]
    exact hown
  have hload := h.load (i := i) hsecure haead hown hmem
  rw [if_pos hsame] at hload
  have hresult : NodeRuns.load C R ⟨doc, site.msgs, site.fwd⟩ i.run =
      (.ok (loaded identity), doc) := hload
  have haccepted : Accepted C R (⟨doc, site.msgs, site.fwd⟩, i.run) := by
    rw [Accepted, hresult]
    rfl
  have hnext : Starts C R sha256 (⟨doc, site.msgs, site.fwd⟩, i.run) ∧
      Keyed C R sha256 passphrase (NodeRuns.main C R sha256 ⟨doc, site.msgs, site.fwd⟩ i.run) := by
    rcases h.stores with hfresh | hkeyed
    · rw [← hsame]
      exact first_run sha256 haead _ hfresh i.run (htellable.derives _ hmem) haccepted
    · exact ⟨(starts_keyed sha256 haead htellable hown _ hkeyed i.run hmem).mpr hsame,
        keyed_main haead _ hkeyed i.run hsame⟩
  obtain ⟨hstarts, hkeyed⟩ := hnext
  have hidentity := main_identity (C := C) (R := R) sha256 ⟨doc, site.msgs, site.fwd⟩ i.run
  rw [hresult] at hidentity
  have hopens : (openStore R site.msgs i.run).1 = .ok () := hstarts.opens
  rw [main_run sha256 hmode h.file]
  refine ⟨?_, hstarts, ?_⟩
  · simp only [runMode, hresult, hopens]
  · refine ⟨?_, h.keys, h.saved, Or.inr ⟨hkeyed.sealed, hkeyed.queued⟩⟩
    simp only [hidentity]

/-- One invocation on the path of an identity. -/
theorem Owned.serves (h : Owned C R sha256 passphrase identity doc site)
    (hsecure : Secure C R.toRuntime (passphrases.map .text)) (haead : C.AeadCorrect)
    (htellable : Tellable R passphrases) (hown : passphrase ∈ passphrases)
    (hmem : i.run.passphrase ∈ passphrases) :
    Serves C R sha256 passphrase identity site i ∧
      Owned C R sha256 passphrase identity doc (step C R sha256 site i) := by
  cases hmode : createMode i with
  | some callsign =>
    have hmain := h.create (i := i) hsecure haead hown hmem hmode
    have hstep : step C R sha256 site i = site := congrArg Prod.snd hmain
    refine ⟨⟨fun hsame => ?_, fun _ hnone => ?_, fun hother => ?_, ?_⟩, ?_⟩
    · rw [hmain, if_pos hsame]
    · cases hmode.symm.trans hnone
    · rw [hmain, if_neg hother, hmode]
      rfl
    · rw [hstep]
    · rw [hstep]
      exact h
  | none =>
    by_cases hsame : i.run.passphrase = passphrase
    · obtain ⟨hreply, hstarts, hnext⟩ := h.start hsecure haead htellable hown hmode hsame
      exact ⟨⟨fun _ => hreply, fun _ _ => ⟨doc, h.file, hstarts⟩, fun hother => absurd hsame hother,
        hnext.file.trans h.file.symm⟩, hnext⟩
    · have hmain := h.refuse hsecure haead hown hmem hmode hsame
      have hstep : step C R sha256 site i = site := congrArg Prod.snd hmain
      refine ⟨⟨fun heq => absurd heq hsame, fun heq => absurd heq hsame, fun _ => ?_, ?_⟩, ?_⟩
      · rw [hmain, hmode]
        rfl
      · rw [hstep]
      · rw [hstep]
        exact h

theorem Owned.serves_run (hsecure : Secure C R.toRuntime (passphrases.map .text))
    (haead : C.AeadCorrect) (htellable : Tellable R passphrases) (hown : passphrase ∈ passphrases)
    (invocations : List Invocation) (hmem : ∀ i ∈ invocations, i.run.passphrase ∈ passphrases)
    (site : Site) (h : Owned C R sha256 passphrase identity doc site) :
    ∀ v ∈ Runs.visits (step C R sha256) site invocations,
      v.1.identity = some doc ∧ Serves C R sha256 passphrase identity v.1 v.2 := by
  induction invocations generalizing site with
  | nil => exact fun v hv => absurd hv List.not_mem_nil
  | cons i rest ih =>
    obtain ⟨hserves, hnext⟩ := h.serves hsecure haead htellable hown (hmem i List.mem_cons_self)
    rw [Runs.visits, List.forall_mem_cons]
    exact ⟨⟨h.file, hserves⟩,
      ih (fun j hj => hmem j (List.mem_cons_of_mem i hj)) _ hnext⟩

end Serving

section Runs

variable {C : Suite} {R : StoreRuntime} (sha256 : Bytes → Fixed 32)

/-- Nothing happens on a path without an identity, as long as nobody can create one. -/
theorem unfounded_run (site : Site) (hnone : site.identity = none) (invocations : List Invocation)
    (h : ∀ i ∈ invocations, founded R i = none) :
    Runs.run (step C R sha256) site invocations = site ∧
      ∀ v ∈ Runs.visits (step C R sha256) site invocations,
        main C R sha256 v.1 v.2 = (⟨.code 1, none⟩, site) := by
  induction invocations with
  | nil => exact ⟨rfl, fun v hv => absurd hv List.not_mem_nil⟩
  | cons i rest ih =>
    have hmain := main_unfounded (C := C) sha256 hnone (h i List.mem_cons_self)
    have hstep : step C R sha256 site i = site := congrArg Prod.snd hmain
    obtain ⟨hrun, hvisits⟩ := ih fun j hj => h j (List.mem_cons_of_mem i hj)
    rw [Runs.run_cons, Runs.visits, List.forall_mem_cons, hstep]
    exact ⟨hrun, hmain, hvisits⟩

/-- A history of invocations on a path where nothing was: those before the first one that can
create an identity fail and leave nothing there; that one writes the file; and from then on the
file stays, an invocation with the founder's passphrase gives its identity, in run mode with a
node that starts, and one with another passphrase fails without a trace. -/
theorem path_serves_founder (C : Suite) (R : StoreRuntime) (sha256 : Bytes → Fixed 32)
    (haead : C.AeadCorrect) (site : Site) (hnone : site.identity = none) (hmsgs : site.msgs = .new)
    (hfwd : site.fwd.rows = []) (before after : List Invocation) (founder : Invocation)
    (identity : DeviceIdentity) (hbefore : ∀ i ∈ before, founded R i = none)
    (hfounder : founded R founder = some identity) (hgenerated : Generated founder)
    (hsecure : Secure C R.toRuntime
      ((founder :: after).map fun i => Passphrase.text i.run.passphrase))
    (htellable : Tellable R ((founder :: after).map fun i => i.run.passphrase)) :
    (∀ v ∈ Runs.visits (step C R sha256) site before,
      main C R sha256 v.1 v.2 = (⟨.code 1, none⟩, site)) ∧
    ∃ doc, main C R sha256 (Runs.run (step C R sha256) site before) founder =
        (⟨.code 0, some (loaded identity)⟩, { site with identity := some doc }) ∧
      ∀ v ∈ Runs.visits (step C R sha256) { site with identity := some doc } after,
        v.1.identity = some doc ∧
          Serves C R sha256 founder.run.passphrase identity v.1 v.2 := by
  have hsecure' : Secure C R.toRuntime
      (((founder :: after).map fun i => i.run.passphrase).map Passphrase.text) := by
    rw [List.map_map]
    exact hsecure
  obtain ⟨hrun, hvisits⟩ := unfounded_run (C := C) sha256 site hnone before hbefore
  obtain ⟨hkeys, doc, hsave, hmain⟩ := main_founded sha256 hsecure
    (List.mem_map_of_mem List.mem_cons_self) hnone hfounder hgenerated
  refine ⟨hvisits, doc, by rw [hrun]; exact hmain, ?_⟩
  have howned : Owned C R sha256 founder.run.passphrase identity doc
      { site with identity := some doc } :=
    ⟨rfl, hkeys, ⟨_, hsave⟩, Or.inl ⟨hmsgs, hfwd⟩⟩
  exact howned.serves_run hsecure' haead htellable (List.mem_map_of_mem List.mem_cons_self) after
    (fun i hi => List.mem_map_of_mem (List.mem_cons_of_mem founder hi))

end Runs

section Stub

open Duress Honest

def stubInvocation (create : Option String) (rank passphrase : String) : Invocation where
  create := create
  rank := rank
  identityDraws := Callsigns.stubIdentityDraws
  saveDraws := stubDraws "unused" (List.Vector.replicate 32 7)
  run := idleRun passphrase

/-- A run without an identity and a creation with a wrong rank come first; bravo tries to run the
node that alpha created. -/
theorem path_serves_founder_alpha : ∃ identity doc,
    founded stubStore (stubInvocation (some "abc") "Squad" "alpha") = some identity ∧
    ∀ v ∈ Runs.visits (step stub stubStore stubSha256) ⟨some doc, .new, .empty⟩
        [stubInvocation none "SQUAD" "alpha", stubInvocation none "SQUAD" "bravo",
          stubInvocation (some "ABC") "NCO" "alpha"],
      v.1.identity = some doc ∧
        Serves stub stubStore stubSha256 "alpha" identity v.1 v.2 := by
  have htexts : ∀ p : Passphrase, p ∈ [Passphrase.text "alpha", .text "alpha", .text "bravo",
      .text "alpha"] → p ∈ [Passphrase.text "alpha", .text "bravo", .text "charlie"] := by
    simp
  have hsub : ["alpha", "alpha", "bravo", "alpha"] ⊆ ["alpha", "bravo"] := by simp
  obtain ⟨-, doc, -, hserves⟩ := path_serves_founder stub stubStore stubSha256 stub_aeadCorrect
    ⟨none, .new, .empty⟩ rfl rfl rfl
    [stubInvocation none "SQUAD" "alpha", stubInvocation (some "abc") "MAJOR" "bravo"]
    [stubInvocation none "SQUAD" "alpha", stubInvocation none "SQUAD" "bravo",
      stubInvocation (some "ABC") "NCO" "alpha"]
    (stubInvocation (some "abc") "Squad" "alpha") _ (by decide +kernel) rfl
    (embeddedKemPub_replicate 0).symm (secure_stub.mono htexts) (tellable_stub.mono hsub)
  exact ⟨_, doc, rfl, hserves⟩

end Stub

end Mesim.Invocations
