import Mesim.Duress
import Mesim.MessageStore
import Mesim.Runs

/-!
What the message store is for: a log.
The log records what was saved, marked and purged. A saved message survives the
purges after it whose cutoff it has reached, and it is delivered when it was marked
after it was saved. A file that is only opened with one passphrase lists the
survivors of a peer by time and id.
-/
namespace Mesim.MessageLog

open Octets TextCodec Crypto Base64 Json IdentityFile Duress MessageStore

section Log

inductive LogEvent where
  | saved (id : ℕ) (peerId direction : String) (plaintext : Bytes) (timestamp : ℚ)
  | marked (id : ℤ)
  | purged (cutoff : ℚ)
  deriving DecidableEq

/-- What the log says of a message that was saved and not purged since. -/
def Survives (log : List LogEvent) (m : StoredMessage) : Prop :=
  ∃ before after, log = before ++ .saved m.id m.peerId m.direction m.plaintext m.timestamp :: after ∧
    (∀ cutoff, .purged cutoff ∈ after → cutoff ≤ m.timestamp) ∧
    (m.delivered = true ↔ .marked m.id ∈ after)

/-- The messages of a peer that survive, below the bound, by time and id. -/
structure IsHistory (log : List LogEvent) (peerId : String) (beforeId : Option ℤ)
    (listed : List StoredMessage) : Prop where
  sorted : listed.Pairwise fun a b =>
    a.timestamp < b.timestamp ∨ a.timestamp = b.timestamp ∧ a.id < b.id
  mem : ∀ m, m ∈ listed ↔ Survives log m ∧ m.peerId = peerId ∧
    ∀ bound, beforeId = some bound → (m.id : ℤ) < bound

def mark (id : ℤ) (m : StoredMessage) : StoredMessage :=
  if (m.id : ℤ) = id then { m with delivered := true } else m

def survivors (messages : List StoredMessage) : LogEvent → List StoredMessage
  | .saved id peerId direction plaintext timestamp =>
    messages ++ [⟨id, peerId, direction, plaintext, timestamp, false⟩]
  | .marked id => messages.map (mark id)
  | .purged cutoff => messages.filter fun m => cutoff ≤ m.timestamp

theorem mark_eq (id : ℤ) (m : StoredMessage) :
    mark id m = { m with delivered := m.delivered || decide ((m.id : ℤ) = id) } := by
  unfold mark
  split
  · rename_i hid
    rw [decide_eq_true hid, Bool.or_true]
  · rename_i hid
    rw [decide_eq_false hid, Bool.or_false]

/-- Either the last event saved the message or it came after that. -/
theorem survives_concat (log : List LogEvent) (e : LogEvent) (m : StoredMessage) :
    Survives (log ++ [e]) m ↔
      (.saved m.id m.peerId m.direction m.plaintext m.timestamp = e ∧ m.delivered = false) ∨
      ∃ before after,
        log = before ++ .saved m.id m.peerId m.direction m.plaintext m.timestamp :: after ∧
        (∀ cutoff, .purged cutoff ∈ after ∨ .purged cutoff = e → cutoff ≤ m.timestamp) ∧
        (m.delivered = true ↔ .marked m.id ∈ after ∨ .marked m.id = e) := by
  constructor
  · rintro ⟨before, after, heq, hpurged, hmarked⟩
    rcases List.eq_nil_or_concat after with rfl | ⟨after, last, rfl⟩
    · obtain ⟨_, hlast⟩ := List.append_inj' heq rfl
      refine Or.inl ⟨(List.singleton_inj.mp hlast).symm, ?_⟩
      simpa only [List.not_mem_nil, iff_false, Bool.not_eq_true] using hmarked
    · rw [List.concat_eq_append, ← List.cons_append, ← List.append_assoc] at heq
      obtain ⟨hlog, hlast⟩ := List.append_inj' heq rfl
      cases List.singleton_inj.mp hlast
      simp only [List.concat_eq_append, List.mem_append, List.mem_singleton] at hpurged hmarked
      exact Or.inr ⟨before, after, hlog, hpurged, hmarked⟩
  · rintro (⟨rfl, hnot⟩ | ⟨before, after, rfl, hpurged, hmarked⟩)
    · refine ⟨log, [], rfl, fun cutoff h => absurd h List.not_mem_nil, ?_⟩
      simp only [hnot, List.not_mem_nil, Bool.false_eq_true]
    · refine ⟨before, after ++ [e], by rw [List.append_assoc, List.cons_append], ?_, ?_⟩
      all_goals simp only [List.mem_append, List.mem_singleton]
      · exact hpurged
      · exact hmarked

theorem survives_saved (log : List LogEvent) (new m : StoredMessage) (hnew : new.delivered = false) :
    Survives (log ++ [.saved new.id new.peerId new.direction new.plaintext new.timestamp]) m ↔
      Survives log m ∨ m = new := by
  rw [survives_concat]
  constructor
  · rintro (⟨heq, hnot⟩ | ⟨before, after, hlog, hpurged, hmarked⟩)
    · obtain ⟨_, _, _, _, _, _⟩ := new
      obtain ⟨_, _, _, _, _, _⟩ := m
      cases heq
      cases hnew
      cases hnot
      exact Or.inr rfl
    · refine Or.inl ⟨before, after, hlog, fun cutoff h => hpurged cutoff (Or.inl h), ?_⟩
      simpa only [reduceCtorEq, or_false] using hmarked
  · rintro (⟨before, after, hlog, hpurged, hmarked⟩ | rfl)
    · refine Or.inr ⟨before, after, hlog, fun cutoff h => ?_, ?_⟩
      · exact hpurged cutoff (h.resolve_right (by simp))
      · simpa only [reduceCtorEq, or_false] using hmarked
    · exact Or.inl ⟨rfl, hnew⟩

theorem survives_marked (log : List LogEvent) (id : ℤ) (m : StoredMessage) :
    Survives (log ++ [.marked id]) m ↔ ∃ old, Survives log old ∧ mark id old = m := by
  rw [survives_concat]
  constructor
  · rintro (⟨h, _⟩ | ⟨before, after, hlog, hpurged, hmarked⟩)
    · contradiction
    · refine ⟨{ m with delivered := decide (.marked m.id ∈ after) },
        ⟨before, after, hlog, fun cutoff h => hpurged cutoff (Or.inl h), decide_eq_true_iff⟩, ?_⟩
      have hdelivered :
          (decide (.marked m.id ∈ after) || decide ((m.id : ℤ) = id)) = m.delivered := by
        rw [Bool.eq_iff_iff, hmarked, LogEvent.marked.injEq, Bool.or_eq_true, decide_eq_true_iff,
          decide_eq_true_iff]
      rw [mark_eq]
      dsimp only
      rw [hdelivered]
  · rintro ⟨old, ⟨before, after, hlog, hpurged, hmarked⟩, rfl⟩
    rw [mark_eq]
    refine Or.inr ⟨before, after, hlog,
      fun cutoff h => hpurged cutoff (h.resolve_right (by simp)), ?_⟩
    rw [Bool.or_eq_true, decide_eq_true_iff, hmarked, LogEvent.marked.injEq]

theorem survives_purged (log : List LogEvent) (cutoff : ℚ) (m : StoredMessage) :
    Survives (log ++ [.purged cutoff]) m ↔ Survives log m ∧ cutoff ≤ m.timestamp := by
  rw [survives_concat]
  constructor
  · rintro (⟨h, _⟩ | ⟨before, after, hlog, hpurged, hmarked⟩)
    · contradiction
    · refine ⟨⟨before, after, hlog, fun c h => hpurged c (Or.inl h), ?_⟩, hpurged cutoff (Or.inr rfl)⟩
      simpa only [reduceCtorEq, or_false] using hmarked
  · rintro ⟨⟨before, after, hlog, hpurged, hmarked⟩, hkept⟩
    refine Or.inr ⟨before, after, hlog, fun c h => ?_, ?_⟩
    · rcases h with h | h
      · exact hpurged c h
      · rw [LogEvent.purged.inj h]
        exact hkept
    · simpa only [reduceCtorEq, or_false] using hmarked

/-- What one more event makes of the survivors. -/
theorem mem_survivors (log : List LogEvent) (messages : List StoredMessage)
    (hlog : ∀ m, m ∈ messages ↔ Survives log m) (e : LogEvent) (m : StoredMessage) :
    m ∈ survivors messages e ↔ Survives (log ++ [e]) m := by
  cases e with
  | saved id peerId direction plaintext timestamp =>
    rw [survivors, List.mem_append, List.mem_singleton, hlog]
    exact (survives_saved log ⟨id, peerId, direction, plaintext, timestamp, false⟩ m rfl).symm
  | marked id =>
    rw [survivors, List.mem_map, survives_marked]
    exact exists_congr fun old => and_congr_left fun _ => hlog old
  | purged cutoff => rw [survivors, List.mem_filter, survives_purged, hlog, decide_eq_true_iff]

end Log

section Storage

variable (C : Suite) (R : StoreRuntime)

/-- What the row says once it is decrypted. -/
def messageOf (key : Bytes) (row : Row) : StoredMessage where
  id := row.id
  peerId := row.peerId
  direction := row.direction
  plaintext := (decrypt C key row.ciphertext).toOption.getD []
  timestamp := row.timestamp
  delivered := row.delivered

def Readable (key : Bytes) (row : Row) : Prop :=
  ∃ plaintext, decrypt C key row.ciphertext = .ok plaintext

/-- The KDF gives a key of 32 bytes for the passphrase, whatever the salt. -/
def Derives (passphrase : Bytes) : Prop :=
  ∀ salt : Fixed 32, ∃ key : Fixed 32, deriveKey R passphrase salt.toList = .ok key.toList

/-- A file under one key, that open() finds again, and what its rows say. -/
structure Filed (s : MessageStore) (key : Fixed 32) (messages : List StoredMessage) : Prop where
  reopens : ∃ saltB64, s.db.metaTable.kdfSalt = some saltB64 ∧
    reopenKey R s.passphrase saltB64 s.db.metaTable =
      .ok (key.toList, (checkOf R key.toList).toList)
  held : s.key = if s.isOpen then some key.toList else none
  readable : ∀ row ∈ s.db.messages.rows, Readable C key.toList row
  rows : s.db.messages.rows.map (messageOf C key.toList) = messages

structure Blank (s : MessageStore) : Prop where
  unsalted : s.db.metaTable.kdfSalt = none
  rows : s.db.messages.rows = []
  closed : s.isOpen = false
  keyless : s.key = none

def Holds (passphrase : Bytes) (s : MessageStore) (messages : List StoredMessage) : Prop :=
  s.passphrase = passphrase ∧ (Blank s ∧ messages = [] ∨ ∃ key, Filed C R s key messages)

variable {C R} {s : MessageStore} {key : Fixed 32} {messages : List StoredMessage}
variable {passphrase : Bytes}

theorem deriveKeyFromParams_own (passphrase salt : Bytes) :
    deriveKeyFromParams R passphrase salt (storeKdfParams R) = deriveKey R passphrase salt := by
  cases havailable : R.argon2Available with
  | true =>
    simp only [deriveKeyFromParams, deriveKey, deriveWrapKey, storeKdfParams, havailable, if_true]
    rfl
  | false =>
    simp only [deriveKeyFromParams, deriveKey, deriveWrapKey, storeKdfParams, havailable]
    rfl

/-- Any passphrase gives some key for a file; the check is that of the file's own key. -/
theorem reopenKey_newMeta (passphrase own key : Bytes) (salt : Fixed 32)
    (hkey : deriveKey R passphrase salt.toList = .ok key) :
    reopenKey R passphrase (b64encode salt.toList) (newMeta R salt own) =
      .ok (key, (checkOf R own).toList) := by
  have hsalt := b64decode_encoded salt.toList
  have hcheck := b64decode_encoded (checkOf R own).toList
  rw [encoded] at hsalt hcheck
  simp only [reopenKey, newMeta, Option.getD_some, hsalt, hcheck, deriveKeyFromParams_own, hkey, bind,
    Except.bind]
  rfl

theorem decrypt_encrypt (haead : C.AeadCorrect) (key : Fixed 32) (nonce : Nonce) (plaintext : Bytes) :
    ∃ blob, encrypt C key.toList nonce plaintext = .ok blob ∧
      decrypt C key.toList blob = .ok plaintext := by
  have hlen : nonce.toList.length = 12 := nonce.toList_length
  refine ⟨nonce.toList ++ encryptKeys C key nonce plaintext, ?_, ?_⟩
  · simp only [encrypt, chachaKey_toList, bind, Except.bind]
    rfl
  · simp only [decrypt, chachaKey_toList, bind, Except.bind, List.take_left' hlen,
      List.drop_left' hlen, decryptKeys, encryptKeys, hlen, if_true,
      haead key nonce.toList [] plaintext]

theorem readRows_eq (key : Bytes) (rows : List Row) (h : ∀ row ∈ rows, Readable C key row) :
    readRows C key rows = .ok (rows.map (messageOf C key)) := by
  induction rows with
  | nil => rfl
  | cons row rest ih =>
    obtain ⟨plaintext, hplaintext⟩ := h row List.mem_cons_self
    have hrest := ih fun r hr => h r (List.mem_cons_of_mem row hr)
    simp only [readRows, hplaintext, hrest, bind, Except.bind, List.map_cons, messageOf,
      Except.toOption, Option.getD_some]
    rfl

/-- open() opens what open() has left. -/
theorem openFile_filed (h : Filed C R s key messages) (salt : Fixed 32) :
    s.openFile R salt = (.ok (), { s with isOpen := true, key := some key.toList }) := by
  unfold openFile
  have hheld := h.held
  split
  · rename_i hopen
    rw [if_pos hopen] at hheld
    rw [← hheld, ← hopen]
  · obtain ⟨saltB64, hsalt, hreopen⟩ := h.reopens
    simp only [hsalt, hreopen, if_true]

theorem openFile_blank (h : Blank s) (hderives : Derives R s.passphrase) (salt : Fixed 32) :
    ∃ key, Filed C R (s.openFile R salt).2 key [] ∧ (s.openFile R salt).1 = .ok () ∧
      (s.openFile R salt).2.isOpen = true ∧
      (s.openFile R salt).2.passphrase = s.passphrase := by
  obtain ⟨key, hkey⟩ := hderives salt
  have hopened : s.openFile R salt =
      (.ok (),
        ⟨s.passphrase, some key.toList, true, ⟨newMeta R salt key.toList, s.db.messages⟩⟩) := by
    simp only [openFile, h.closed, h.unsalted, hkey]
    rfl
  rw [hopened]
  refine ⟨key, ⟨⟨_, rfl, reopenKey_newMeta _ _ _ salt hkey⟩, rfl, ?_, ?_⟩, rfl, rfl, rfl⟩
  · intro row hrow
    rw [h.rows] at hrow
    contradiction
  · rw [h.rows, List.map_nil]

theorem assertOpen_filed (h : Filed C R s key messages) :
    s.assertOpen = if s.isOpen then .ok key.toList else .error .runtimeError := by
  rw [assertOpen, h.held]
  cases s.isOpen <;> rfl

/-- The table changes, the rest of the file does not. -/
theorem Filed.withMessages (h : Filed C R s key messages) (table : IdTable Row.id)
    (hreadable : ∀ row ∈ table.rows, Readable C key.toList row) (messages' : List StoredMessage)
    (hrows : table.rows.map (messageOf C key.toList) = messages') :
    Filed C R (s.withMessages table) key messages' :=
  ⟨h.reopens, h.held, hreadable, hrows⟩

theorem saveMessage_open (haead : C.AeadCorrect) (h : Filed C R s key messages)
    (hopen : s.isOpen = true) (now : ℚ) (nonce : Nonce) (peerId direction : String)
    (plaintext : Bytes) (timestamp : Option ℚ) (hvalid : validDirection direction) :
    ∃ table, s.saveMessage C now nonce peerId direction plaintext timestamp =
        (.ok s.db.messages.nextId, s.withMessages table) ∧
      Filed C R (s.withMessages table) key (survivors messages
        (.saved s.db.messages.nextId peerId direction plaintext (timestamp.getD now))) := by
  obtain ⟨blob, hblob, hplain⟩ := decrypt_encrypt haead key nonce plaintext
  have hassert := assertOpen_filed h
  rw [if_pos hopen] at hassert
  refine ⟨s.db.messages.insert
    (fun id => ⟨id, peerId, direction, blob, timestamp.getD now, false⟩) fun _ => rfl, ?_, ?_⟩
  · simp only [saveMessage, not_true, hvalid, if_false, hassert, hblob]
  refine h.withMessages _ (fun row hrow => ?_) _ ?_
  · rcases List.mem_append.mp hrow with hold | hnew
    · exact h.readable row hold
    · rw [List.mem_singleton.mp hnew]
      exact ⟨plaintext, hplain⟩
  · rw [IdTable.insert, List.map_append, h.rows, survivors]
    simp only [List.map_cons, List.map_nil, messageOf, hplain, Except.toOption, Option.getD_some]

/-- What sqlite3 raises for an int that it cannot bind. -/
def tooLarge : PyError := .overflowError "Python int too large to convert to SQLite INTEGER"

theorem bindInt_ok {n : ℤ} (h : Fits n) : bindInt n = .ok n := if_pos h

theorem bindInt_error {n : ℤ} (h : ¬ Fits n) : bindInt n = .error tooLarge := if_neg h

theorem bindBound_ok {beforeId : Option ℤ} (h : ∀ bound, beforeId = some bound → Fits bound) :
    bindBound beforeId = .ok beforeId := by
  cases beforeId with
  | none => rfl
  | some bound =>
    rw [bindBound, bindInt_ok (h bound rfl)]
    rfl

theorem markDelivered_open (h : Filed C R s key messages) (hopen : s.isOpen = true) (msgId : ℤ)
    (hfits : Fits msgId) : ∃ table, s.markDelivered msgId = (.ok (), s.withMessages table) ∧
      Filed C R (s.withMessages table) key (survivors messages (.marked msgId)) := by
  have hassert := assertOpen_filed h
  rw [if_pos hopen] at hassert
  have hcipher : ∀ row, (deliver msgId row).ciphertext = row.ciphertext := by
    intro row
    unfold deliver
    split <;> rfl
  refine ⟨s.db.messages.update (deliver msgId) (id_deliver msgId),
    by simp only [markDelivered, hassert, bindInt_ok hfits], h.withMessages _ (fun row hrow => ?_) _ ?_⟩
  · obtain ⟨old, hold, rfl⟩ := List.mem_map.mp hrow
    rw [Readable, hcipher]
    exact h.readable old hold
  · rw [IdTable.update, survivors, ← h.rows, List.map_map, List.map_map]
    refine List.map_congr_left fun row _ => ?_
    simp only [Function.comp_apply, deliver, mark]
    by_cases hid : (row.id : ℤ) = msgId
    · rw [if_pos hid, if_pos (by exact hid)]
      rfl
    · rw [if_neg hid, if_neg (by exact hid)]

theorem purgeOld_open (h : Filed C R s key messages) (hopen : s.isOpen = true) (now maxAge : ℚ) :
    ∃ table, s.purgeOld now maxAge =
        (.ok (messages.filter fun m => m.timestamp < now - maxAge).length, s.withMessages table) ∧
      Filed C R (s.withMessages table) key (survivors messages (.purged (now - maxAge))) := by
  have hassert := assertOpen_filed h
  rw [if_pos hopen] at hassert
  let isOld : Row → Bool := fun row => row.timestamp < now - maxAge
  have hcount : s.db.messages.rows.length - (s.db.messages.delete isOld).rows.length =
      (messages.filter fun m => m.timestamp < now - maxAge).length := by
    have hold : (messages.filter fun m => m.timestamp < now - maxAge).length =
        (s.db.messages.rows.filter isOld).length := by
      rw [← h.rows, List.filter_map, List.length_map]
      rfl
    have hsum : s.db.messages.rows.length = (s.db.messages.rows.filter isOld).length +
        (s.db.messages.delete isOld).rows.length := List.length_eq_length_filter_add isOld
    omega
  refine ⟨s.db.messages.delete isOld, ?_, h.withMessages _ (fun row hrow => ?_) _ ?_⟩
  · rw [← hcount]
    simp only [purgeOld, hassert]
    rfl
  · exact h.readable row (List.mem_filter.mp hrow).1
  · rw [IdTable.delete, survivors, ← h.rows, List.filter_map]
    refine congrArg _ (List.filter_congr fun row _ => ?_)
    simp only [isOld, Function.comp_apply, messageOf, ← decide_not, not_lt]
    rfl

/-- What get_history() sorts and cuts. -/
def listing (messages : List StoredMessage) (peerId : String) (beforeId : Option ℤ) :
    List StoredMessage :=
  (messages.filter fun m => m.peerId = peerId && beforeId.all fun bound => (m.id : ℤ) < bound)
    |>.insertionSort (IdTable.Precedes StoredMessage.timestamp StoredMessage.id)

theorem map_limited {α β : Type} (f : α → β) (limit : ℤ) (rows : List α) :
    (limited limit rows).map f = limited limit (rows.map f) := by
  unfold limited
  split
  · rfl
  · exact List.map_take

theorem markDelivered_tooLarge (h : Filed C R s key messages) (hopen : s.isOpen = true) {msgId : ℤ}
    (hlarge : ¬ Fits msgId) : s.markDelivered msgId = (.error tooLarge, s) := by
  have hassert := assertOpen_filed h
  rw [if_pos hopen] at hassert
  simp only [markDelivered, hassert, bindInt_error hlarge]

/-- What get_history() returns when the rows that it reads decrypt. -/
theorem getHistory_readable {key : Bytes} (hassert : s.assertOpen = .ok key) (peerId : String)
    {limit : ℤ} (hlimit : Fits limit) {beforeId : Option ℤ}
    (hbound : ∀ bound, beforeId = some bound → Fits bound)
    (hreadable : ∀ row ∈ s.db.messages.rows,
      isListed peerId beforeId row = true → Readable C key row) :
    s.getHistory C peerId limit beforeId =
      .ok (limited limit (listing (s.db.messages.rows.map (messageOf C key)) peerId beforeId)) := by
  have hlisted : (s.db.messages.select Row.timestamp (isListed peerId beforeId)).map
      (messageOf C key) = listing (s.db.messages.rows.map (messageOf C key)) peerId beforeId := by
    rw [IdTable.select, listing, List.filter_map]
    exact List.map_insertionSort _ (IdTable.Precedes StoredMessage.timestamp StoredMessage.id) _ _
      fun a _ b _ => Iff.rfl
  have hread : readRows C key (limited limit (s.db.messages.select Row.timestamp
      (isListed peerId beforeId))) =
        .ok (limited limit (listing (s.db.messages.rows.map (messageOf C key)) peerId beforeId)) := by
    rw [readRows_eq, map_limited, hlisted]
    intro row hrow
    have hsub : row ∈ s.db.messages.select Row.timestamp (isListed peerId beforeId) := by
      unfold limited at hrow
      split at hrow
      · exact hrow
      · exact List.mem_of_mem_take hrow
    obtain ⟨hmem, hselected⟩ := (IdTable.mem_select _ _ _).mp hsub
    exact hreadable row hmem hselected
  simp only [getHistory, hassert, bindBound_ok hbound, bindInt_ok hlimit, bind, Except.bind, hread]

theorem getHistory_open (h : Filed C R s key messages) (hopen : s.isOpen = true) (peerId : String)
    {limit : ℤ} (hlimit : Fits limit) {beforeId : Option ℤ}
    (hbound : ∀ bound, beforeId = some bound → Fits bound) :
    s.getHistory C peerId limit beforeId =
      .ok (limited limit (listing messages peerId beforeId)) := by
  have hassert := assertOpen_filed h
  rw [if_pos hopen] at hassert
  rw [getHistory_readable hassert peerId hlimit hbound fun row hrow _ => h.readable row hrow, h.rows]

theorem getHistory_tooLarge (h : Filed C R s key messages) (hopen : s.isOpen = true) (peerId : String)
    {limit : ℤ} {beforeId : Option ℤ}
    (hlarge : ¬ Fits limit ∨ ∃ bound, beforeId = some bound ∧ ¬ Fits bound) :
    s.getHistory C peerId limit beforeId = .error tooLarge := by
  have hassert := assertOpen_filed h
  rw [if_pos hopen] at hassert
  by_cases hbound : ∀ bound, beforeId = some bound → Fits bound
  · have hlimit : ¬ Fits limit := hlarge.resolve_right fun ⟨bound, hsome, hnot⟩ =>
      hnot (hbound bound hsome)
    simp only [getHistory, hassert, bindBound_ok hbound, bindInt_error hlimit, bind, Except.bind]
  · simp only [not_forall] at hbound
    obtain ⟨bound, rfl, hnot⟩ := hbound
    simp only [getHistory, hassert, bindBound, bindInt_error hnot, Except.map, bind, Except.bind]

end Storage

section Runs

variable (C : Suite) (R : StoreRuntime)

/-- The calls that can change a store. -/
inductive Call where
  | openFile (salt : Fixed 32)
  | close
  | saveMessage (now : ℚ) (nonce : Nonce) (peerId direction : String) (plaintext : Bytes)
      (timestamp : Option ℚ)
  | markDelivered (msgId : ℤ)
  | purgeOld (now maxAgeSeconds : ℚ)

def step (s : MessageStore) : Call → MessageStore
  | .openFile salt => (s.openFile R salt).2
  | .close => s.close
  | .saveMessage now nonce peerId direction plaintext timestamp =>
    (s.saveMessage C now nonce peerId direction plaintext timestamp).2
  | .markDelivered msgId => (s.markDelivered msgId).2
  | .purgeOld now maxAgeSeconds => (s.purgeOld now maxAgeSeconds).2

/-- What the call adds to the log: nothing when it raises. -/
def logged : MessageStore × Call → List LogEvent
  | (_, .openFile _) => []
  | (_, .close) => []
  | (s, .saveMessage now nonce peerId direction plaintext timestamp) =>
    match (s.saveMessage C now nonce peerId direction plaintext timestamp).1 with
    | .ok id => [.saved id peerId direction plaintext (timestamp.getD now)]
    | .error _ => []
  | (s, .markDelivered msgId) =>
    match (s.markDelivered msgId).1 with
    | .ok () => [.marked msgId]
    | .error _ => []
  | (s, .purgeOld now maxAgeSeconds) =>
    match (s.purgeOld now maxAgeSeconds).1 with
    | .ok _ => [.purged (now - maxAgeSeconds)]
    | .error _ => []

/-- The log of a run. -/
def journal (s : MessageStore) (calls : List Call) : List LogEvent :=
  (Runs.visits (step C R) s calls).flatMap (logged C)

variable {C R} {s : MessageStore} {key : Fixed 32} {messages : List StoredMessage}
variable {passphrase : Bytes}

/-- A store that is not open refuses. -/
structure Refuses (C : Suite) (s : MessageStore) : Prop where
  save : ∀ now nonce peerId direction plaintext timestamp, validDirection direction →
    s.saveMessage C now nonce peerId direction plaintext timestamp = (.error .runtimeError, s)
  history : ∀ peerId limit beforeId, s.getHistory C peerId limit beforeId = .error .runtimeError
  mark : ∀ msgId, s.markDelivered msgId = (.error .runtimeError, s)
  purge : ∀ now maxAge, s.purgeOld now maxAge = (.error .runtimeError, s)

theorem saveMessage_direction (s : MessageStore) (now : ℚ) (nonce : Nonce)
    (peerId direction : String) (plaintext : Bytes) (timestamp : Option ℚ)
    (h : ¬ validDirection direction) :
    s.saveMessage C now nonce peerId direction plaintext timestamp =
      (.error (invalidDirection direction), s) := if_pos h

theorem refuses_of_assert (h : s.assertOpen = .error .runtimeError) : Refuses C s where
  save now nonce peerId direction plaintext timestamp hvalid := by
    simp only [saveMessage, not_true, hvalid, if_false, h]
  history peerId limit beforeId := by simp only [getHistory, h, bind, Except.bind]
  mark msgId := by simp only [markDelivered, h]
  purge now maxAge := by simp only [purgeOld, h]

theorem Holds.refuses (h : Holds C R passphrase s messages) (hclosed : s.isOpen = false) :
    Refuses C s := by
  apply refuses_of_assert
  rcases h.2 with ⟨hblank, _⟩ | ⟨key, hfiled⟩
  · rw [assertOpen, hblank.keyless]
  · rw [assertOpen_filed hfiled, hclosed]
    rfl

theorem Holds.filed (h : Holds C R passphrase s messages) (hopen : s.isOpen = true) :
    ∃ key, Filed C R s key messages := by
  rcases h.2 with ⟨hblank, _⟩ | hfiled
  · rw [hblank.closed] at hopen
    contradiction
  · exact hfiled

theorem holds_open (hderives : Derives R passphrase) (h : Holds C R passphrase s messages)
    (salt : Fixed 32) : (s.openFile R salt).1 = .ok () ∧ (s.openFile R salt).2.isOpen = true ∧
      Holds C R passphrase (s.openFile R salt).2 messages := by
  obtain ⟨rfl, ⟨hblank, rfl⟩ | ⟨key, hfiled⟩⟩ := h
  · obtain ⟨key, hfiled, hok, hopen, hpass⟩ := openFile_blank (C := C) hblank hderives salt
    exact ⟨hok, hopen, hpass, Or.inr ⟨key, hfiled⟩⟩
  · rw [openFile_filed hfiled]
    exact ⟨rfl, rfl, rfl, Or.inr ⟨key, hfiled.reopens, rfl, hfiled.readable, hfiled.rows⟩⟩

theorem holds_close (h : Holds C R passphrase s messages) :
    Holds C R passphrase s.close messages := by
  obtain ⟨hpass, ⟨hblank, rfl⟩ | ⟨key, hfiled⟩⟩ := h
  · exact ⟨hpass, Or.inl ⟨⟨hblank.unsalted, hblank.rows, rfl, rfl⟩, rfl⟩⟩
  · exact ⟨hpass, Or.inr ⟨key, hfiled.reopens, rfl, hfiled.readable, hfiled.rows⟩⟩

/-- A call changes what the file holds as the log says. -/
theorem holds_step (haead : C.AeadCorrect) (hderives : Derives R passphrase)
    (h : Holds C R passphrase s messages) (call : Call) :
    Holds C R passphrase (step C R s call) ((logged C (s, call)).foldl survivors messages) := by
  cases call with
  | openFile salt => exact (holds_open hderives h salt).2.2
  | close => exact holds_close h
  | saveMessage now nonce peerId direction plaintext timestamp =>
    simp only [step, logged]
    by_cases hvalid : validDirection direction
    · cases hopen : s.isOpen with
      | false =>
        rw [(h.refuses hopen).save now nonce peerId direction plaintext timestamp hvalid]
        exact h
      | true =>
        obtain ⟨key, hfiled⟩ := h.filed hopen
        obtain ⟨table, hsaved, hfiled'⟩ := saveMessage_open haead hfiled hopen now nonce peerId
          direction plaintext timestamp hvalid
        rw [hsaved]
        exact ⟨h.1, Or.inr ⟨key, hfiled'⟩⟩
    · rw [saveMessage_direction s now nonce peerId direction plaintext timestamp hvalid]
      exact h
  | markDelivered msgId =>
    simp only [step, logged]
    cases hopen : s.isOpen with
    | false =>
      rw [(h.refuses hopen).mark msgId]
      exact h
    | true =>
      obtain ⟨key, hfiled⟩ := h.filed hopen
      by_cases hfits : Fits msgId
      · obtain ⟨table, hmarked, hfiled'⟩ := markDelivered_open hfiled hopen msgId hfits
        rw [hmarked]
        exact ⟨h.1, Or.inr ⟨key, hfiled'⟩⟩
      · rw [markDelivered_tooLarge hfiled hopen hfits]
        exact h
  | purgeOld now maxAge =>
    simp only [step, logged]
    cases hopen : s.isOpen with
    | false =>
      rw [(h.refuses hopen).purge now maxAge]
      exact h
    | true =>
      obtain ⟨key, hfiled⟩ := h.filed hopen
      obtain ⟨table, hpurged, hfiled'⟩ := purgeOld_open hfiled hopen now maxAge
      rw [hpurged]
      exact ⟨h.1, Or.inr ⟨key, hfiled'⟩⟩

/-- What a run leaves is what its log says. -/
theorem holds_run (haead : C.AeadCorrect) (hderives : Derives R passphrase) (calls : List Call)
    (h : Holds C R passphrase s messages) :
    Holds C R passphrase (Runs.run (step C R) s calls)
      ((journal C R s calls).foldl survivors messages) := by
  induction calls generalizing s messages with
  | nil => exact h
  | cons call rest ih =>
    rw [journal, Runs.visits, List.flatMap_cons, List.foldl_append]
    exact ih (holds_step haead hderives h call)

theorem mem_foldl_survivors (log : List LogEvent) (m : StoredMessage) :
    m ∈ log.foldl survivors [] ↔ Survives log m := by
  induction log using List.reverseRecOn generalizing m with
  | nil =>
    apply iff_of_false List.not_mem_nil
    rintro ⟨before, after, heq, _⟩
    exact absurd heq.symm (by simp)
  | append_singleton log e ih =>
    rw [List.foldl_append]
    exact mem_survivors log _ ih e m

theorem Filed.nodup_ids (h : Filed C R s key messages) : (messages.map StoredMessage.id).Nodup := by
  rw [← h.rows, List.map_map]
  exact s.db.messages.nodup_ids

theorem isHistory_listing {log : List LogEvent} (hlog : ∀ m, m ∈ messages ↔ Survives log m)
    (hids : (messages.map StoredMessage.id).Nodup) (peerId : String) (beforeId : Option ℤ) :
    IsHistory log peerId beforeId (listing messages peerId beforeId) where
  sorted := IdTable.sort_before _ (hids.sublist (List.filter_sublist.map _))
  mem m := by
    rw [listing, List.mem_insertionSort, List.mem_filter, hlog, Bool.and_eq_true, decide_eq_true_iff]
    refine and_congr_right fun _ => and_congr_right fun _ => ?_
    cases beforeId <;> simp

/-- What the calls of a store return, by its log. -/
structure LogStore (C : Suite) (R : StoreRuntime) (s : MessageStore) (log : List LogEvent) :
    Prop where
  opens : ∀ salt, (s.openFile R salt).1 = .ok () ∧ (s.openFile R salt).2.isOpen = true
  saves : s.isOpen = true → ∀ now nonce peerId direction plaintext timestamp,
    validDirection direction →
      ∃ id, (s.saveMessage C now nonce peerId direction plaintext timestamp).1 = .ok id
  direction : ∀ now nonce peerId direction plaintext timestamp, ¬ validDirection direction →
    s.saveMessage C now nonce peerId direction plaintext timestamp =
      (.error (invalidDirection direction), s)
  history : s.isOpen = true → ∀ peerId (limit : ℤ) beforeId, 0 ≤ limit → Fits limit →
    (∀ bound, beforeId = some bound → Fits bound) →
      ∃ listed, IsHistory log peerId beforeId listed ∧
        s.getHistory C peerId limit beforeId = .ok (listed.take limit.toNat)
  overflows : s.isOpen = true → ∀ peerId (limit : ℤ) beforeId,
    (¬ Fits limit ∨ ∃ bound, beforeId = some bound ∧ ¬ Fits bound) →
      s.getHistory C peerId limit beforeId = .error tooLarge
  marks : s.isOpen = true → ∀ msgId, Fits msgId → (s.markDelivered msgId).1 = .ok ()
  unmarked : s.isOpen = true → ∀ msgId, ¬ Fits msgId →
    s.markDelivered msgId = (.error tooLarge, s)
  purges : s.isOpen = true → ∀ now maxAge, ∃ removed : List StoredMessage, removed.Nodup ∧
    (∀ m, m ∈ removed ↔ Survives log m ∧ m.timestamp < now - maxAge) ∧
      (s.purgeOld now maxAge).1 = .ok removed.length
  refuses : s.isOpen = false → Refuses C s

theorem Holds.logStore {log : List LogEvent} (haead : C.AeadCorrect) (hderives : Derives R passphrase)
    (h : Holds C R passphrase s messages) (hlog : ∀ m, m ∈ messages ↔ Survives log m) :
    LogStore C R s log where
  opens salt := ⟨(holds_open hderives h salt).1, (holds_open hderives h salt).2.1⟩
  saves hopen now nonce peerId direction plaintext timestamp hvalid := by
    obtain ⟨key, hfiled⟩ := h.filed hopen
    obtain ⟨table, hsaved, _⟩ := saveMessage_open haead hfiled hopen now nonce peerId direction
      plaintext timestamp hvalid
    exact ⟨_, by rw [hsaved]⟩
  direction := saveMessage_direction s
  history hopen peerId limit beforeId hlimit hfits hbound := by
    obtain ⟨key, hfiled⟩ := h.filed hopen
    refine ⟨_, isHistory_listing hlog hfiled.nodup_ids peerId beforeId, ?_⟩
    rw [getHistory_open hfiled hopen peerId hfits hbound, limited, if_neg (not_lt.mpr hlimit)]
  overflows hopen peerId limit beforeId hlarge := by
    obtain ⟨key, hfiled⟩ := h.filed hopen
    exact getHistory_tooLarge hfiled hopen peerId hlarge
  marks hopen msgId hfits := by
    obtain ⟨key, hfiled⟩ := h.filed hopen
    obtain ⟨table, hmarked, _⟩ := markDelivered_open hfiled hopen msgId hfits
    rw [hmarked]
  unmarked hopen msgId hlarge := by
    obtain ⟨key, hfiled⟩ := h.filed hopen
    exact markDelivered_tooLarge hfiled hopen hlarge
  purges hopen now maxAge := by
    obtain ⟨key, hfiled⟩ := h.filed hopen
    obtain ⟨table, hpurged, _⟩ := purgeOld_open hfiled hopen now maxAge
    refine ⟨_, (List.Nodup.of_map _ hfiled.nodup_ids).filter _, fun m => ?_, by rw [hpurged]⟩
    rw [List.mem_filter, hlog, decide_eq_true_iff]
  refuses hclosed := h.refuses hclosed

theorem holds_new (passphrase : Passphrase) :
    Holds C R (normalizePassphrase passphrase) (init passphrase .new) [] :=
  ⟨rfl, Or.inl ⟨⟨rfl, rfl, rfl, rfl⟩, rfl⟩⟩

/-- A new file, opened and closed with one passphrase, is a log: each survivor of a peer is listed
by time and id with what it was saved with, delivered when it was marked after it was saved. -/
theorem store_refines_log (C : Suite) (R : StoreRuntime) (haead : C.AeadCorrect)
    (passphrase : Passphrase) (hderives : Derives R (normalizePassphrase passphrase))
    (calls : List Call) :
    LogStore C R (Runs.run (step C R) (init passphrase .new) calls)
      (journal C R (init passphrase .new) calls) :=
  (holds_run haead hderives calls (holds_new passphrase)).logStore haead hderives
    fun m => mem_foldl_survivors _ m

end Runs

section Stub

/-- The installation of the identity files, with a check that counts bytes. -/
def stubStore : StoreRuntime where
  toRuntime := stubRuntime
  hmacSha256 key message := checksum 32 (key ++ message)

theorem derives_stub (passphrase : Bytes) : Derives stubStore passphrase :=
  fun _ => ⟨stubWrapKey passphrase, rfl⟩

def stubNonce : Nonce := List.Vector.replicate 12 0

/-- An id is marked before its message exists. -/
def markEarly : List Call :=
  [.openFile (List.Vector.replicate 32 0), .markDelivered 1,
    .saveMessage 5 stubNonce "bravo" "sent" [104, 105] none]

theorem journal_markEarly : journal stub stubStore (init (.text "alpha") .new) markEarly =
    [.marked 1, .saved 1 "bravo" "sent" [104, 105] 5] := by decide +kernel

/-- That the id was marked at some time does not make the message delivered, and a limit that SQLite
has no room for lists nothing. -/
theorem marked_before_saved : (¬ ∀ (calls : List Call) (peerId : String) (limit : ℤ)
    (listed : List StoredMessage), 0 ≤ limit →
    (Runs.run (step stub stubStore) (init (.text "alpha") .new) calls).getHistory stub peerId limit
      none = .ok listed →
    ∀ m ∈ listed, m.delivered = true ↔
      .marked m.id ∈ journal stub stubStore (init (.text "alpha") .new) calls) ∧
    ¬ ∀ limit : ℤ, 0 ≤ limit → ∃ listed,
      (Runs.run (step stub stubStore) (init (.text "alpha") .new) markEarly).getHistory stub "bravo"
        limit none = .ok listed := by
  refine ⟨fun h => ?_, fun h => ?_⟩
  swap
  · obtain ⟨listed, hlisted⟩ := h (2 ^ 63) (by decide)
    have hlarge : (Runs.run (step stub stubStore) (init (.text "alpha") .new) markEarly).getHistory
        stub "bravo" (2 ^ 63) none = .error tooLarge := by decide +kernel
    cases hlisted.symm.trans hlarge
  have hlisted :
      (Runs.run (step stub stubStore) (init (.text "alpha") .new) markEarly).getHistory stub
        "bravo" 100 none = .ok [⟨1, "bravo", "sent", [104, 105], 5, false⟩] := by decide +kernel
  have hmarked := h markEarly "bravo" 100 _ (by decide) hlisted _ List.mem_cons_self
  rw [journal_markEarly] at hmarked
  exact absurd (hmarked.mpr List.mem_cons_self) (by decide)

theorem store_refines_log_early :
    LogStore stub stubStore (Runs.run (step stub stubStore) (init (.text "alpha") .new) markEarly)
      [.marked 1, .saved 1 "bravo" "sent" [104, 105] 5] := by
  have h := store_refines_log stub stubStore stub_aeadCorrect (.text "alpha") (derives_stub _)
    markEarly
  rwa [journal_markEarly] at h

end Stub

end Mesim.MessageLog
