import Mesim.StoreOpening

/-!
A store whose open() has raised.
Of the ways in which open() can raise only the mismatch of the key check closes the
connection again. After any other the store has a connection and no key: the next
open() returns at once, and every operation after it finds the store not open.
-/
namespace Mesim.FailedOpens

open Octets TextCodec Crypto Base64 Json IdentityFile Duress MessageStore MessageLog StoreOpening

section Calls

variable (C : Suite) (R : StoreRuntime)

/-- One call of the store. The operations work on the table of messages alone. -/
def step (s : Store) : Call → Store
  | .openFile salt => (openStore R s salt).2
  | .close => { s with connected := false, key := none }
  | call => { s with disk := { s.disk with
      messages := s.disk.messages.map fun _ =>
        (MessageLog.step C R s.toMessageStore call).db.messages } }

/-- No operation fails with "not open". -/
def Usable (s : Store) : Prop := ∃ key, s.toMessageStore.assertOpen = .ok key

/-- What a call of open() should do: when it raises the store is closed and it raises again;
when it returns the store is usable until it is closed. -/
structure Clean (s : Store) (salt : Fixed 32) : Prop where
  raises : ∀ e, (openStore R s salt).1 = .error e →
    (openStore R s salt).2.connected = false ∧ (openStore R s salt).2.key = none ∧
    ∀ salt', ∃ e', (openStore R (openStore R s salt).2 salt').1 = .error e'
  returns : (openStore R s salt).1 = .ok () → ∀ later, .close ∉ later →
    Usable (Runs.run (step C R) (openStore R s salt).2 later)

/-- The key can be computed from what the file holds, or for a new one from a fresh salt. -/
def KeyComputes (s : Store) (salt : Fixed 32) : Prop :=
  match s.disk.rows.kdfSalt with
  | none => ∃ key, deriveKey R s.passphrase salt.toList = .ok key
  | some saltB64 => ∃ pair, rederiveKey R s.passphrase saltB64 s.disk.rows = .ok pair

/-- A store has a key exactly while it is connected. -/
def Sound (s : Store) : Prop := s.key.isSome = s.connected

variable {C R} {s : Store}

theorem usable_iff : Usable s ↔ s.key.isSome = true ∧ s.connected = true := by
  unfold Usable assertOpen Store.toMessageStore
  cases s.key with
  | none => simp
  | some key => cases s.connected <;> simp

theorem usable_step (h : Usable s) {call : Call} (hcall : call ≠ .close) :
    Usable (step C R s call) := by
  obtain ⟨hkey, hconnected⟩ := usable_iff.mp h
  cases call with
  | openFile salt =>
    show Usable (openStore R s salt).2
    rw [openStore_connected hconnected salt]
    exact h
  | close => exact absurd rfl hcall
  | saveMessage now nonce peerId direction plaintext timestamp => exact h
  | markDelivered msgId => exact h
  | purgeOld now maxAge => exact h

theorem usable_run (h : Usable s) (later : List Call) (hlater : .close ∉ later) :
    Usable (Runs.run (step C R) s later) := by
  induction later generalizing s with
  | nil => exact h
  | cons call rest ih =>
    have hcall : call ≠ .close := by
      rintro rfl
      exact hlater List.mem_cons_self
    exact ih (usable_step h hcall) fun hrest => hlater (List.mem_cons_of_mem call hrest)

end Calls

section Opening

variable {C : Suite} {R : StoreRuntime} {s : Store}

/-- The key check in the file is that of another key. -/
def Mismatched (R : StoreRuntime) (s : Store) : Prop :=
  ∃ saltB64 key storedCheck, s.disk.rows.kdfSalt = some saltB64 ∧
    rederiveKey R s.passphrase saltB64 s.disk.rows = .ok (key, storedCheck) ∧
    (checkOf R key).toList ≠ storedCheck

theorem openStore_mismatched (hclosed : s.connected = false) (h : Mismatched R s)
    (salt : Fixed 32) :
    openStore R s salt = (.error .invalidTag, { s.opened with connected := false }) := by
  obtain ⟨saltB64, key, storedCheck, hsalt, hkey, hcheck⟩ := h
  rw [openStore_checked hclosed hsalt salt key storedCheck hkey, if_neg hcheck]

/-- open() of a closed store whose key can be computed opens it, or closes it again. -/
theorem openStore_computes (hclosed : s.connected = false) (salt : Fixed 32)
    (h : KeyComputes R s salt) :
    ((openStore R s salt).1 = .ok () ∧ Usable (openStore R s salt).2) ∨ Mismatched R s := by
  unfold KeyComputes at h
  cases hsalt : s.disk.rows.kdfSalt with
  | none =>
    rw [hsalt] at h
    obtain ⟨key, hkey⟩ := h
    rw [openStore_new hclosed hsalt salt key hkey]
    exact Or.inl ⟨rfl, usable_iff.mpr ⟨rfl, rfl⟩⟩
  | some saltB64 =>
    rw [hsalt] at h
    obtain ⟨⟨key, storedCheck⟩, hkey⟩ := h
    by_cases hcheck : (checkOf R key).toList = storedCheck
    · rw [openStore_checked hclosed hsalt salt key storedCheck hkey, if_pos hcheck]
      exact Or.inl ⟨rfl, usable_iff.mpr ⟨rfl, rfl⟩⟩
    · exact Or.inr ⟨saltB64, key, storedCheck, hsalt, hkey, hcheck⟩

/-- Where it cannot be computed, the connection stays. -/
theorem openStore_stuck (hclosed : s.connected = false) (salt : Fixed 32)
    (h : ¬ KeyComputes R s salt) :
    ∃ e, openStore R s salt = (.error e, s.opened) := by
  unfold KeyComputes at h
  cases hsalt : s.disk.rows.kdfSalt with
  | none =>
    rw [hsalt] at h
    cases hkey : deriveKey R s.passphrase salt.toList with
    | error e => exact ⟨e, openStore_underived hclosed hsalt salt e hkey⟩
    | ok key => exact absurd ⟨key, hkey⟩ h
  | some saltB64 =>
    rw [hsalt] at h
    cases hkey : rederiveKey R s.passphrase saltB64 s.disk.rows with
    | error e => exact ⟨e, openStore_unreadable hclosed hsalt salt e hkey⟩
    | ok pair => exact absurd ⟨pair, hkey⟩ h

theorem clean_of_usable (salt : Fixed 32) (hok : (openStore R s salt).1 = .ok ())
    (h : Usable (openStore R s salt).2) : Clean C R s salt where
  raises e he := by cases hok.symm.trans he
  returns _ later hlater := usable_run h later hlater

theorem clean_of_mismatched (hclosed : s.connected = false) (hkey : s.key = none)
    (h : Mismatched R s) (salt : Fixed 32) : Clean C R s salt := by
  have hopen := openStore_mismatched hclosed h
  constructor
  · intro e _
    rw [hopen salt]
    refine ⟨rfl, hkey, fun salt' => ⟨.invalidTag, ?_⟩⟩
    rw [openStore_mismatched (R := R) (s := { s.opened with connected := false }) rfl h salt']
  · intro hok
    rw [hopen salt] at hok
    cases hok

/-- A call of open() on a sound store is clean when the store is connected already or its
key can be computed. -/
theorem clean_iff (hsound : Sound s) (salt : Fixed 32) :
    Clean C R s salt ↔ (s.connected = false → KeyComputes R s salt) := by
  cases hconnected : s.connected with
  | true =>
    have hopen := openStore_connected (R := R) hconnected salt
    have husable : Usable (openStore R s salt).2 := by
      rw [hopen]
      exact usable_iff.mpr ⟨hsound.trans hconnected, hconnected⟩
    exact iff_of_true (clean_of_usable salt (by rw [hopen]) husable) fun hfalse => by cases hfalse
  | false =>
    constructor
    · intro hclean _
      by_contra hnot
      obtain ⟨e, hstuck⟩ := openStore_stuck hconnected salt hnot
      obtain ⟨hclosed, _⟩ := hclean.raises e (by rw [hstuck])
      rw [hstuck] at hclosed
      cases hclosed
    · intro hcomputes
      rcases openStore_computes hconnected salt (hcomputes rfl) with ⟨hok, husable⟩ | hmismatched
      · exact clean_of_usable salt hok husable
      · have hkey : s.key = none := by
          rw [Sound, hconnected] at hsound
          exact Option.isNone_iff_eq_none.mp (Option.isSome_eq_false_iff.mp hsound)
        exact clean_of_mismatched hconnected hkey hmismatched salt

end Opening

section Runs

variable {C : Suite} {R : StoreRuntime} {s : Store}

/-- Every call of open() in the run is clean. -/
def OpensCleanly (C : Suite) (R : StoreRuntime) (s : Store) (call : Call) : Prop :=
  ∀ salt, call = .openFile salt → Clean C R s salt

/-- Every call of open() that finds the store closed can compute its key. -/
def OpensComputably (R : StoreRuntime) (s : Store) (call : Call) : Prop :=
  ∀ salt, call = .openFile salt → s.connected = false → KeyComputes R s salt

theorem sound_step (hsound : Sound s) (call : Call) (h : OpensComputably R s call) :
    Sound (step C R s call) := by
  cases call with
  | openFile salt =>
    show Sound (openStore R s salt).2
    cases hconnected : s.connected with
    | true =>
      rw [openStore_connected hconnected salt]
      exact hsound
    | false =>
      rcases openStore_computes hconnected salt (h salt rfl hconnected) with
        ⟨_, husable⟩ | hmismatched
      · obtain ⟨hkey, hopen⟩ := usable_iff.mp husable
        exact hkey.trans hopen.symm
      · rw [openStore_mismatched hconnected hmismatched salt]
        exact hsound.trans hconnected
  | close => rfl
  | saveMessage now nonce peerId direction plaintext timestamp => exact hsound
  | markDelivered msgId => exact hsound
  | purgeOld now maxAge => exact hsound

/-- From any file and over any calls, open() is clean throughout exactly when the key can be
computed whenever it finds the store closed. -/
theorem opens_cleanly_iff (C : Suite) (R : StoreRuntime) (passphrase : Passphrase) (disk : Disk)
    (calls : List Call) :
    Runs.Always (step C R) (OpensCleanly C R) (Store.init passphrase disk) calls ↔
      Runs.Always (step C R) (OpensComputably R) (Store.init passphrase disk) calls := by
  refine Runs.always_congr (I := Sound) ?_ (fun _ call hs h => sound_step hs call h) _ calls rfl
  intro s call hsound
  exact forall_congr' fun salt => imp_congr_right fun _ => clean_iff hsound salt

end Runs

section Stub

/-- The installation without argon2-cffi. -/
def bareStore : StoreRuntime := { stubStore with argon2Available := false }

/-- A file that was made where argon2-cffi is installed. -/
def argon2Disk : Disk :=
  Disk.blank.after (commits stubStore (encodeUtf8 "alpha") Disk.blank (List.Vector.replicate 32 7))

theorem not_computes_argon2 (salt : Fixed 32) :
    ¬ KeyComputes bareStore (Store.init (.text "alpha") argon2Disk) salt := by
  rintro ⟨pair, hpair⟩
  obtain ⟨b, _, hpair⟩ := bind_ok_iff.mp hpair
  obtain ⟨params, hparams, hpair⟩ := bind_ok_iff.mp hpair
  obtain ⟨key, hkey, _⟩ := bind_ok_iff.mp hpair
  cases hparams
  have hraised : ∀ passphrase : Bytes, deriveKeyFromParams bareStore passphrase b
      (storeKdfParams stubStore) = .error .runtimeError := fun _ => rfl
  cases (hraised _).symm.trans hkey

/-- Its open() raises a RuntimeError and leaves the connection behind. -/
theorem failed_open_connected : ¬ ∀ (C : Suite) (R : StoreRuntime) (passphrase : Passphrase)
    (disk : Disk) (calls : List Call),
    Runs.Always (step C R) (OpensCleanly C R) (Store.init passphrase disk) calls := by
  intro h
  have hclean := h stub bareStore (.text "alpha") argon2Disk [.openFile (List.Vector.replicate 32 9)]
  have hsound : Sound (Store.init (.text "alpha") argon2Disk) := rfl
  exact not_computes_argon2 _
    ((clean_iff hsound (List.Vector.replicate 32 9)).mp (hclean.1 _ rfl) rfl)

end Stub

end Mesim.FailedOpens
