import Mesim.MessageLog

/-!
What open() leaves behind when it does not get to its end.
The schema and each entry of the meta table are committed on their own, the salt
first, and a file is taken for an initialised one as soon as it has a salt. open()
sets the connection before it computes the key, and looks only at the connection to
see whether it has been called before.
-/
namespace Mesim.StoreOpening

open Octets TextCodec Crypto Base64 Json IdentityFile Duress MessageStore MessageLog

section Disk

/-- The text of `kdf_params`, by what json.loads() makes of it. -/
inductive ParamsText where
  | empty
  | malformed
  | json (value : Value)

structure MetaRows where
  kdfSalt : Option String
  kdfParams : Option ParamsText
  keyCheck : Option String
  version : Option String

def MetaRows.none : MetaRows := ⟨.none, .none, .none, .none⟩

inductive MetaEntry where
  | kdfSalt (value : String)
  | kdfParams (value : ParamsText)
  | keyCheck (value : String)
  | version (value : String)

/-- `INSERT OR REPLACE`. -/
def MetaRows.set (rows : MetaRows) : MetaEntry → MetaRows
  | .kdfSalt value => { rows with kdfSalt := some value }
  | .kdfParams value => { rows with kdfParams := some value }
  | .keyCheck value => { rows with keyCheck := some value }
  | .version value => { rows with version := some value }

/-- What has been committed to the file. -/
structure Disk where
  metaRows : Option MetaRows
  messages : Option (IdTable Row.id)
  indexed : Bool

namespace Disk

def blank : Disk := ⟨none, none, false⟩

def rows (d : Disk) : MetaRows := d.metaRows.getD .none

end Disk

/-- The transactions of open(). -/
inductive Commit where
  | createMeta
  | createMessages
  | createIndex
  | metaSet (entry : MetaEntry)

/-- The tables are created unless they exist. -/
def Disk.commit (d : Disk) : Commit → Disk
  | .createMeta => { d with metaRows := some d.rows }
  | .createMessages => { d with messages := some (d.messages.getD .empty) }
  | .createIndex => { d with indexed := true }
  | .metaSet entry => { d with metaRows := d.metaRows.map fun rows => rows.set entry }

def Disk.after (d : Disk) (commits : List Commit) : Disk := commits.foldl Disk.commit d

/-- `_ensure_schema`: the statements of the script commit one by one. -/
def ensureSchema : List Commit := [.createMeta, .createMessages, .createIndex]

end Disk

section Open

variable (R : StoreRuntime)

/-- The store object, with the file it works on. -/
structure Store where
  passphrase : Bytes
  key : Option Bytes
  connected : Bool
  disk : Disk

def Store.init (passphrase : Passphrase) (disk : Disk) : Store where
  passphrase := normalizePassphrase passphrase
  key := none
  connected := false
  disk := disk

/-- `json.loads(self._meta_get("kdf_params") or "{}")`. -/
def loadsParams : Option ParamsText → Except PyError Value
  | none => .ok (.obj [])
  | some .empty => .ok (.obj [])
  | some .malformed => .error (.valueError "JSONDecodeError")
  | some (.json value) => .ok value

/-- The key of a file that has a salt, and the key check stored in it. -/
def rederiveKey (passphrase : Bytes) (saltB64 : String) (rows : MetaRows) :
    Except PyError (Bytes × Bytes) := do
  let salt ← b64decode (.str saltB64)
  let params ← loadsParams rows.kdfParams
  let key ← deriveKeyFromParams R passphrase salt params
  let storedCheck ← b64decode (.str (rows.keyCheck.getD ""))
  return (key, storedCheck)

/-- The entries of a new file. -/
def metaWrites (salt : Fixed 32) (key : Bytes) : List Commit :=
  [.metaSet (.kdfSalt (b64encode salt.toList)),
    .metaSet (.kdfParams (.json (storeKdfParams R))),
    .metaSet (.keyCheck (b64encode (checkOf R key).toList)),
    .metaSet (.version "1")]

/-- The connection is set and the schema is there. -/
def Store.opened (s : Store) : Store :=
  { s with connected := true, disk := s.disk.after ensureSchema }

/-- open(), drawing the salt of a new file. -/
def openStore (s : Store) (salt : Fixed 32) : Except PyError Unit × Store :=
  if s.connected then (.ok (), s)
  else
    match s.opened.disk.rows.kdfSalt with
    | none =>
      match deriveKey R s.passphrase salt.toList with
      | .error e => (.error e, s.opened)
      | .ok key =>
        (.ok (),
          { s.opened with key := some key, disk := s.opened.disk.after (metaWrites R salt key) })
    | some saltB64 =>
      match rederiveKey R s.passphrase saltB64 s.opened.disk.rows with
      | .error e => (.error e, s.opened)
      | .ok (key, storedCheck) =>
        if (checkOf R key).toList = storedCheck then (.ok (), { s.opened with key := some key })
        else (.error .invalidTag, { s.opened with connected := false })

/-- What one open() commits, in order. -/
def commits (passphrase : Bytes) (d : Disk) (salt : Fixed 32) : List Commit :=
  match d.rows.kdfSalt with
  | some _ => ensureSchema
  | none =>
    match deriveKey R passphrase salt.toList with
    | .error _ => ensureSchema
    | .ok key => ensureSchema ++ metaWrites R salt key

variable {R} {s : Store}

theorem openStore_connected (h : s.connected = true) (salt : Fixed 32) :
    openStore R s salt = (.ok (), s) := if_pos h

section Closed

variable (hclosed : s.connected = false)
include hclosed

theorem openStore_underived (hnew : s.disk.rows.kdfSalt = none) (salt : Fixed 32) (e : PyError)
    (h : deriveKey R s.passphrase salt.toList = .error e) :
    openStore R s salt = (.error e, s.opened) := by
  have hrows : s.opened.disk.rows.kdfSalt = none := hnew
  simp only [openStore, hclosed, Bool.false_eq_true, if_false, hrows, h]

theorem openStore_new (hnew : s.disk.rows.kdfSalt = none) (salt : Fixed 32) (key : Bytes)
    (h : deriveKey R s.passphrase salt.toList = .ok key) :
    openStore R s salt = (.ok (),
      { s.opened with key := some key, disk := s.opened.disk.after (metaWrites R salt key) }) := by
  have hrows : s.opened.disk.rows.kdfSalt = none := hnew
  simp only [openStore, hclosed, Bool.false_eq_true, if_false, hrows, h]

variable {saltB64 : String} (hsalt : s.disk.rows.kdfSalt = some saltB64)
include hsalt

theorem openStore_unreadable (salt : Fixed 32) (e : PyError)
    (h : rederiveKey R s.passphrase saltB64 s.disk.rows = .error e) :
    openStore R s salt = (.error e, s.opened) := by
  have hrows : s.opened.disk.rows.kdfSalt = some saltB64 := hsalt
  have hkey : rederiveKey R s.passphrase saltB64 s.opened.disk.rows = .error e := h
  simp only [openStore, hclosed, Bool.false_eq_true, if_false, hrows, hkey]

theorem openStore_checked (salt : Fixed 32) (key storedCheck : Bytes)
    (h : rederiveKey R s.passphrase saltB64 s.disk.rows = .ok (key, storedCheck)) :
    openStore R s salt =
      if (checkOf R key).toList = storedCheck then (.ok (), { s.opened with key := some key })
      else (.error .invalidTag, { s.opened with connected := false }) := by
  have hrows : s.opened.disk.rows.kdfSalt = some saltB64 := hsalt
  have hkey : rederiveKey R s.passphrase saltB64 s.opened.disk.rows = .ok (key, storedCheck) := h
  simp only [openStore, hclosed, Bool.false_eq_true, if_false, hrows, hkey]

end Closed

end Open

section Refinement

variable {R : StoreRuntime}

def paramsValue : Option ParamsText → Option Value
  | some (.json value) => some value
  | _ => none

/-- The store without the steps in which its file came about. -/
def Store.toMessageStore (s : Store) : MessageStore where
  passphrase := s.passphrase
  key := s.key
  isOpen := s.connected
  db := ⟨⟨s.disk.rows.kdfSalt, paramsValue s.disk.rows.kdfParams, s.disk.rows.keyCheck,
    s.disk.rows.version⟩, s.disk.messages.getD .empty⟩

theorem rederiveKey_eq (passphrase : Bytes) (saltB64 : String) (s : Store)
    (h : s.disk.rows.kdfParams ≠ some .malformed) :
    rederiveKey R passphrase saltB64 s.disk.rows =
      reopenKey R passphrase saltB64 s.toMessageStore.db.metaTable := by
  have hloads : loadsParams s.disk.rows.kdfParams =
      .ok ((paramsValue s.disk.rows.kdfParams).getD (.obj [])) := by
    cases hparams : s.disk.rows.kdfParams with
    | none => rfl
    | some text =>
      cases text with
      | empty => rfl
      | malformed => exact absurd hparams h
      | json value => rfl
  simp only [rederiveKey, reopenKey, hloads, Store.toMessageStore]
  rfl

/-- Where the parameters are JSON, open() is that of the message store. -/
theorem openStore_refines (s : Store) (h : s.disk.rows.kdfParams ≠ some .malformed)
    (salt : Fixed 32) :
    s.toMessageStore.openFile R salt =
      ((openStore R s salt).1, (openStore R s salt).2.toMessageStore) := by
  cases hclosed : s.connected with
  | true =>
    rw [openStore_connected hclosed salt]
    exact if_pos hclosed
  | false =>
    have hopen : s.toMessageStore.isOpen = false := hclosed
    cases hsalt : s.disk.rows.kdfSalt with
    | none =>
      have hsalt' : s.toMessageStore.db.metaTable.kdfSalt = none := hsalt
      cases hkey : deriveKey R s.passphrase salt.toList with
      | error e =>
        have hkey' : deriveKey R s.toMessageStore.passphrase salt.toList = .error e := hkey
        rw [openStore_underived hclosed hsalt salt e hkey]
        simp only [openFile, hopen, hsalt', hkey']
        rfl
      | ok key =>
        have hkey' : deriveKey R s.toMessageStore.passphrase salt.toList = .ok key := hkey
        rw [openStore_new hclosed hsalt salt key hkey]
        simp only [openFile, hopen, hsalt', hkey']
        rfl
    | some saltB64 =>
      have hsalt' : s.toMessageStore.db.metaTable.kdfSalt = some saltB64 := hsalt
      have hrederive := rederiveKey_eq (R := R) s.passphrase saltB64 s h
      cases hkey : rederiveKey R s.passphrase saltB64 s.disk.rows with
      | error e =>
        have hkey' : reopenKey R s.toMessageStore.passphrase saltB64
            s.toMessageStore.db.metaTable = .error e := hrederive.symm.trans hkey
        rw [openStore_unreadable hclosed hsalt salt e hkey]
        simp only [openFile, hopen, hsalt', hkey']
        rfl
      | ok pair =>
        have hkey' : reopenKey R s.toMessageStore.passphrase saltB64
            s.toMessageStore.db.metaTable = .ok pair := hrederive.symm.trans hkey
        rw [openStore_checked hclosed hsalt salt pair.1 pair.2 hkey]
        simp only [openFile, hopen, hsalt', hkey', Bool.false_eq_true, if_false]
        by_cases hcheck : (checkOf R pair.1).toList = pair.2
        · rw [if_pos hcheck, if_pos hcheck]
          rfl
        · rw [if_neg hcheck, if_neg hcheck, ← hopen]
          rfl

end Refinement

section Crashes

variable (C : Suite) (R : StoreRuntime)

/-- A later open() succeeds, and every operation works on an empty log. -/
def Recovers (passphrase : Passphrase) (d : Disk) (salt : Fixed 32) : Prop :=
  (openStore R (Store.init passphrase d) salt).1 = .ok () ∧
    (openStore R (Store.init passphrase d) salt).2.connected = true ∧
    LogStore C R (openStore R (Store.init passphrase d) salt).2.toMessageStore []

/-- The salt has been committed and the key check has not. -/
def Torn (done : List Commit) : Prop :=
  (∃ value, .metaSet (.kdfSalt value) ∈ done) ∧ ∀ value, .metaSet (.keyCheck value) ∉ done

variable {C R}

theorem recovers_of_holds (haead : C.AeadCorrect) {passphrase : Passphrase}
    (hderives : Derives R (normalizePassphrase passphrase)) {d : Disk}
    (hparams : d.rows.kdfParams ≠ some .malformed)
    (hholds : Holds C R (normalizePassphrase passphrase) (Store.init passphrase d).toMessageStore [])
    (salt : Fixed 32) : Recovers C R passphrase d salt := by
  have hrefines := openStore_refines (R := R) (Store.init passphrase d) hparams salt
  obtain ⟨hok, hopen, hholds'⟩ := holds_open hderives hholds salt
  rw [hrefines] at hok hopen hholds'
  exact ⟨hok, hopen, hholds'.logStore haead hderives fun m => mem_foldl_survivors [] m⟩

/-- Without a salt the file is opened as a new one. -/
theorem recovers_unsalted (haead : C.AeadCorrect) {passphrase : Passphrase}
    (hderives : Derives R (normalizePassphrase passphrase)) {d : Disk}
    (hrows : d.rows = .none) (hmessages : d.messages.getD .empty = .empty) (salt : Fixed 32) :
    Recovers C R passphrase d salt := by
  have hblank : Blank (Store.init passphrase d).toMessageStore := by
    refine ⟨?_, ?_, rfl, rfl⟩
    · show d.rows.kdfSalt = none
      rw [hrows]
      rfl
    · show (d.messages.getD .empty).rows = []
      rw [hmessages]
      rfl
  refine recovers_of_holds haead hderives ?_ ⟨rfl, Or.inl ⟨hblank, rfl⟩⟩ salt
  rw [hrows]
  exact Option.some_ne_none _ ∘ Eq.symm

/-- With the salt, the parameters and the key check the key is found again. -/
theorem recovers_checked (haead : C.AeadCorrect) {passphrase : Passphrase}
    (hderives : Derives R (normalizePassphrase passphrase)) {d : Disk} (own key : Fixed 32)
    (hkey : deriveKey R (normalizePassphrase passphrase) own.toList = .ok key.toList)
    (version : Option String) (hrows : d.rows = ⟨some (b64encode own.toList),
      some (.json (storeKdfParams R)), some (b64encode (checkOf R key.toList).toList), version⟩)
    (hmessages : d.messages.getD .empty = .empty) (salt : Fixed 32) :
    Recovers C R passphrase d salt := by
  have hreopen := reopenKey_newMeta (R := R) (normalizePassphrase passphrase) key.toList key.toList
    own hkey
  have hfiled : Filed C R (Store.init passphrase d).toMessageStore key [] := by
    refine ⟨⟨b64encode own.toList, ?_, ?_⟩, rfl, ?_, ?_⟩
    · show d.rows.kdfSalt = _
      rw [hrows]
    · rw [← rederiveKey_eq _ _ _ (by rw [Store.init, hrows]; simp)]
      show rederiveKey R _ _ d.rows = _
      rw [← hreopen, hrows]
      rfl
    · intro row hrow
      rw [Store.toMessageStore, Store.init, hmessages] at hrow
      exact absurd hrow List.not_mem_nil
    · rw [Store.toMessageStore, Store.init, hmessages]
      rfl
  refine recovers_of_holds haead hderives ?_ ⟨rfl, Or.inr ⟨key, hfiled⟩⟩ salt
  rw [hrows]
  simp

/-- A file with a salt and no key check is never opened again. -/
theorem unchecked_raises {s : Store} (hclosed : s.connected = false) {saltB64 : String}
    (hsalt : s.disk.rows.kdfSalt = some saltB64) (hcheck : s.disk.rows.keyCheck = none)
    (salt : Fixed 32) : ∃ e, (openStore R s salt).1 = .error e := by
  cases hkey : rederiveKey R s.passphrase saltB64 s.disk.rows with
  | error e => exact ⟨e, by rw [openStore_unreadable hclosed hsalt salt e hkey]⟩
  | ok pair =>
    have hempty : pair.2 = [] := by
      obtain ⟨_, _, hkey⟩ := bind_ok_iff.mp hkey
      obtain ⟨_, _, hkey⟩ := bind_ok_iff.mp hkey
      obtain ⟨_, _, hkey⟩ := bind_ok_iff.mp hkey
      obtain ⟨storedCheck, hdecode, hkey⟩ := bind_ok_iff.mp hkey
      rw [hcheck] at hdecode
      cases hdecode
      cases hkey
      rfl
    have hmismatch : (checkOf R pair.1).toList ≠ pair.2 := by
      intro heq
      have hlen := congrArg List.length heq
      rw [hempty, List.Vector.toList_length] at hlen
      cases hlen
    rw [openStore_checked hclosed hsalt salt pair.1 pair.2 hkey, if_neg hmismatch]
    exact ⟨_, rfl⟩

/-- Stopped after any of the commits of its first open(), a store is opened again by the same
passphrase exactly when it did not stop between the salt and the key check. -/
theorem first_open_crash_iff (C : Suite) (R : StoreRuntime) (haead : C.AeadCorrect)
    (passphrase : Passphrase) (hderives : Derives R (normalizePassphrase passphrase))
    (salt salt' : Fixed 32) (done : List Commit)
    (hdone : done <+: commits R (normalizePassphrase passphrase) Disk.blank salt) :
    Recovers C R passphrase (Disk.blank.after done) salt' ↔ ¬ Torn done := by
  obtain ⟨key, hkey⟩ := hderives salt
  have hcommits : commits R (normalizePassphrase passphrase) Disk.blank salt =
      ensureSchema ++ metaWrites R salt key.toList := by
    unfold commits
    rw [hkey]
    rfl
  rw [hcommits, ← List.mem_inits] at hdone
  simp only [ensureSchema, metaWrites, List.cons_append, List.nil_append, List.inits,
    List.map_cons, List.map_nil, List.mem_cons, List.not_mem_nil, or_false] at hdone
  have hunsalted : ∀ d : Disk, d.rows = .none → d.messages.getD .empty = .empty →
      Recovers C R passphrase d salt' :=
    fun d hrows hmessages => recovers_unsalted haead hderives hrows hmessages salt'
  have htorn : ∀ (d : Disk) (saltB64 : String), d.rows.kdfSalt = some saltB64 →
      d.rows.keyCheck = none → ¬ Recovers C R passphrase d salt' := by
    rintro d saltB64 hsalt hcheck ⟨hok, _⟩
    obtain ⟨e, he⟩ := unchecked_raises (R := R) (s := Store.init passphrase d) rfl hsalt hcheck salt'
    cases hok.symm.trans he
  rcases hdone with rfl | rfl | rfl | rfl | rfl | rfl | rfl | rfl
  -- the schema, as far as it goes
  · exact iff_of_true (hunsalted _ rfl rfl) (by simp [Torn])
  · exact iff_of_true (hunsalted _ rfl rfl) (by simp [Torn])
  · exact iff_of_true (hunsalted _ rfl rfl) (by simp [Torn])
  · exact iff_of_true (hunsalted _ rfl rfl) (by simp [Torn])
  -- the salt, then the parameters
  · exact iff_of_false (htorn _ _ rfl rfl) (not_not.mpr (by simp [Torn]))
  · exact iff_of_false (htorn _ _ rfl rfl) (not_not.mpr (by simp [Torn]))
  -- the key check, then the version
  · exact iff_of_true (recovers_checked haead hderives salt key hkey none rfl rfl salt')
      (by simp [Torn])
  · exact iff_of_true (recovers_checked haead hderives salt key hkey (some "1") rfl rfl salt')
      (by simp [Torn])

end Crashes

section Stub

theorem commits_stub : commits stubStore (encodeUtf8 "alpha") Disk.blank
    (List.Vector.replicate 32 7) = ensureSchema ++ metaWrites stubStore (List.Vector.replicate 32 7)
      (stubWrapKey (encodeUtf8 "alpha")).toList := rfl

theorem first_open_crash_iff_schema :
    Recovers stub stubStore (.text "alpha") (Disk.blank.after ensureSchema)
      (List.Vector.replicate 32 9) ↔ ¬ Torn ensureSchema :=
  first_open_crash_iff stub stubStore stub_aeadCorrect (.text "alpha") (derives_stub _)
    (List.Vector.replicate 32 7) (List.Vector.replicate 32 9) ensureSchema
    (commits_stub ▸ List.prefix_append _ _)

/-- The process stops after the salt. -/
theorem torn_after_salt : ¬ ∀ (C : Suite) (R : StoreRuntime) (passphrase : Passphrase)
    (salt salt' : Fixed 32) (done : List Commit), C.AeadCorrect →
    Derives R (normalizePassphrase passphrase) →
    done <+: commits R (normalizePassphrase passphrase) Disk.blank salt →
    Recovers C R passphrase (Disk.blank.after done) salt' := by
  intro h
  let salted : List Commit := ensureSchema ++
    [.metaSet (.kdfSalt (b64encode (List.Vector.replicate 32 7 : Fixed 32).toList))]
  have hprefix : salted <+: commits stubStore (encodeUtf8 "alpha") Disk.blank
      (List.Vector.replicate 32 7) := by
    rw [commits_stub]
    exact ⟨_, rfl⟩
  obtain ⟨hok, _⟩ := h stub stubStore (.text "alpha") (List.Vector.replicate 32 7)
    (List.Vector.replicate 32 9) salted stub_aeadCorrect (derives_stub _) hprefix
  obtain ⟨e, he⟩ := unchecked_raises (R := stubStore)
    (s := Store.init (.text "alpha") (Disk.blank.after salted)) rfl rfl rfl
    (List.Vector.replicate 32 9)
  cases hok.symm.trans he

end Stub

end Mesim.StoreOpening
