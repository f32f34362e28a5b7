import Mesim.FifoQueue
import Mesim.MessageLog

/-!
Runs of the program on one identity path.
Each run loads the identity file with its passphrase and opens two more files with
keys derived from it: the message store, which remembers a check of the key it was
made with, and the forward queue. Loading with the duress passphrase rewrites the
identity file; the other two stay as they are.
-/
namespace Mesim.NodeRuns

open Octets TextCodec Crypto Base64 Json IdentityFile MessageStore MessageLog ForwardQueue

section Model

/-- The three files. -/
structure Disk where
  identity : Value
  msgs : Database
  fwd : Table

/-- A run of main(): its passphrase, what it draws and reads when it starts and stops, and what the
node does with its store and its queue in between. -/
structure NodeRun where
  passphrase : String
  loadDraws : SaveDraws
  salt : Fixed 32
  startNow : ℚ
  storeCalls : List MessageLog.Call
  queueCalls : List FifoQueue.Call
  stopNow : ℚ

variable (C : Suite) (R : StoreRuntime) (sha256 : Bytes → Fixed 32)

def deriveQueueKey (passphrase : String) : SessionKey := ⟨sha256 (encodeUtf8 passphrase)⟩

/-- `MessageStore(msgs_db, passphrase)` and its open(). -/
def openStore (msgs : Database) (run : NodeRun) : Except PyError Unit × MessageStore :=
  (MessageStore.init (.text run.passphrase) msgs).openFile R run.salt

/-- `ForwardQueue(fwd_db, _derive_queue_key(passphrase))`. -/
def newQueue (fwd : Table) (run : NodeRun) : ForwardQueue :=
  ⟨deriveQueueKey sha256 run.passphrase, false, fwd⟩

/-- What the node does with its queue from its start to its shutdown. -/
def queueCalls (run : NodeRun) : List FifoQueue.Call :=
  .openFile :: .purgeExpired run.startNow :: run.queueCalls ++ [.purgeExpired run.stopNow, .close]

/-- The node does not start when open() raises. -/
def runNode (disk : Disk) (run : NodeRun) : Disk :=
  match openStore R disk.msgs run with
  | (.error _, store) => { disk with msgs := store.db }
  | (.ok _, store) =>
    { disk with
      msgs := (Runs.run (MessageLog.step C R) store (run.storeCalls ++ [.close])).db
      fwd := (Runs.run (FifoQueue.step C) (newQueue sha256 disk.fwd run) (queueCalls run)).table }

def load (disk : Disk) (run : NodeRun) : Except PyError LoadedIdentity × Value :=
  loadIdentity C R.toRuntime run.loadDraws disk.identity (.text run.passphrase)

/-- main() in run mode. -/
def main (disk : Disk) (run : NodeRun) : Disk :=
  let disk' := { disk with identity := (load C R disk run).2 }
  match (load C R disk run).1 with
  | .error _ => disk'
  | .ok _ => runNode C R sha256 disk' run

/-- load_identity() takes the passphrase. -/
def Accepted (v : Disk × NodeRun) : Prop := (load C R v.1 v.2).1.isOk = true

/-- The store opens, and the queue can be read at all times of the run while it is open. -/
structure Starts (v : Disk × NodeRun) : Prop where
  opens : (openStore R v.1.msgs v.2).1 = .ok ()
  reads : ∀ done, done <+: queueCalls v.2 →
    (Runs.run (FifoQueue.step C) (newQueue sha256 v.1.fwd v.2) done).isOpen = true →
      ∀ now peerId, ∃ pending, (Runs.run (FifoQueue.step C) (newQueue sha256 v.1.fwd v.2)
        done).getPending C now peerId = .ok pending

/-- Nothing was stored or queued yet. -/
def Fresh (disk : Disk) : Prop := disk.msgs = .new ∧ disk.fwd.rows = []

/-- Each passphrase gives a key for any salt, and the check in a store tells them apart. -/
structure Tellable (passphrases : List String) : Prop where
  derives : ∀ p ∈ passphrases, Derives R (encodeUtf8 p)
  distinct : ∀ p ∈ passphrases, ∀ q ∈ passphrases, ∀ salt key key' : Fixed 32,
    deriveKey R (encodeUtf8 p) salt.toList = .ok key.toList →
    deriveKey R (encodeUtf8 q) salt.toList = .ok key'.toList →
      checkOf R key.toList = checkOf R key'.toList → p = q

end Model

section Keys

variable {C : Suite} {R : StoreRuntime} {sha256 : Bytes → Fixed 32}

/-- A store that has a key keeps its key check. -/
theorem metaTable_step (s : MessageStore) (call : MessageLog.Call)
    (h : s.db.metaTable.kdfSalt.isSome = true) :
    (MessageLog.step C R s call).db.metaTable = s.db.metaTable := by
  obtain ⟨saltB64, hsalt⟩ := Option.isSome_iff_exists.mp h
  cases call with
  | openFile salt =>
    rw [MessageLog.step, MessageStore.openFile]
    split
    · rfl
    · simp only [hsalt]
      split
      · rfl
      · split <;> rfl
  | close => rfl
  | saveMessage now nonce peerId direction plaintext timestamp =>
    rw [MessageLog.step, saveMessage]
    split
    · rfl
    · split
      · rfl
      · split <;> rfl
  | markDelivered msgId =>
    rw [MessageLog.step, markDelivered]
    split
    · rfl
    · split <;> rfl
  | purgeOld now maxAge =>
    rw [MessageLog.step, purgeOld]
    split <;> rfl

theorem metaTable_run (calls : List MessageLog.Call) (s : MessageStore)
    (h : s.db.metaTable.kdfSalt.isSome = true) :
    (Runs.run (MessageLog.step C R) s calls).db.metaTable = s.db.metaTable := by
  induction calls generalizing s with
  | nil => rfl
  | cons call rest ih =>
    have hstep := metaTable_step (C := C) (R := R) s call h
    rw [Runs.run_cons, ih _ (by rw [hstep]; exact h), hstep]

/-- Every row was encrypted with the key. -/
def Readable (C : Suite) (key : SessionKey) (rows : List ForwardQueue.Row) : Prop :=
  ∀ row ∈ rows, ∃ payload, decryptPayload C key row.payload = .ok payload

theorem readable_step (haead : C.AeadCorrect) (q : ForwardQueue) (call : FifoQueue.Call)
    (h : Readable C q.key q.table.rows) : (FifoQueue.step C q call).key = q.key ∧
      Readable C q.key (FifoQueue.step C q call).table.rows := by
  have hfilter : ∀ condition, Readable C q.key (q.table.delete condition).rows :=
    fun condition row hrow => h row (List.mem_filter.mp hrow).1
  cases call with
  | openFile | close | getPending _ _ | queueSize _ _ | totalSize _ => exact ⟨rfl, h⟩
  | enqueue sizeNow now nonce peerId payload =>
    rw [FifoQueue.step, FifoQueue.enqueueAt]
    split
    · next q' id henqueue =>
      obtain ⟨-, rfl⟩ := enqueueAt_ok henqueue
      refine ⟨rfl, fun row hrow => ?_⟩
      rcases List.mem_append.mp hrow with hold | hnew
      · exact h row hold
      · rw [List.mem_singleton.mp hnew]
        exact ⟨payload, decryptPayload_encryptPayload C haead nonce q.key payload⟩
    · exact ⟨rfl, h⟩
  | markSent queueId =>
    cases hopen : q.isOpen with
    | false =>
      rw [FifoQueue.step, ForwardQueue.markSent, FifoQueue.assertOpen_closed hopen]
      exact ⟨rfl, h⟩
    | true =>
      rw [FifoQueue.step, markSent_open hopen]
      exact ⟨rfl, hfilter _⟩
  | incrementAttempt queueId =>
    cases hopen : q.isOpen with
    | false =>
      rw [FifoQueue.step, ForwardQueue.incrementAttempt, FifoQueue.assertOpen_closed hopen]
      exact ⟨rfl, h⟩
    | true =>
      rw [FifoQueue.step, incrementAttempt_open hopen]
      refine ⟨rfl, fun row hrow => ?_⟩
      obtain ⟨old, hold, rfl⟩ := List.mem_map.mp hrow
      have hpayload : (Table.bump queueId old).payload = old.payload := by
        unfold Table.bump
        split <;> rfl
      rw [hpayload]
      exact h old hold
  | purgeExpired now =>
    cases hopen : q.isOpen with
    | false =>
      rw [FifoQueue.step, ForwardQueue.purgeExpired, FifoQueue.assertOpen_closed hopen]
      exact ⟨rfl, h⟩
    | true =>
      rw [FifoQueue.step, purgeExpired_open hopen]
      exact ⟨rfl, hfilter _⟩

theorem readable_run (haead : C.AeadCorrect) (calls : List FifoQueue.Call) (q : ForwardQueue)
    (h : Readable C q.key q.table.rows) : (Runs.run (FifoQueue.step C) q calls).key = q.key ∧
      Readable C q.key (Runs.run (FifoQueue.step C) q calls).table.rows := by
  induction calls generalizing q with
  | nil => exact ⟨rfl, h⟩
  | cons call rest ih =>
    obtain ⟨hkey, hrows⟩ := readable_step haead q call h
    rw [← hkey] at hrows ⊢
    exact ih _ hrows

theorem getPending_readable {q : ForwardQueue} (h : Readable C q.key q.table.rows)
    (hopen : q.isOpen = true) (now : ℚ) (peerId : String) :
    ∃ pending, q.getPending C now peerId = .ok pending := by
  have hread := FifoQueue.readRows_eq q.key (q.table.select Row.queuedAt (isLive (normalizePeerId peerId) now))
    fun row hrow => h row ((IdTable.mem_select _ _ _).mp hrow).1
  refine ⟨(q.table.select Row.queuedAt (isLive (normalizePeerId peerId) now)).map
    (FifoQueue.messageOf C q.key), ?_⟩
  simp only [ForwardQueue.getPending, ForwardQueue.assertOpen, hopen, if_true, bind, Except.bind]
  exact hread

end Keys

section Runs

variable {C : Suite} {R : StoreRuntime} {sha256 : Bytes → Fixed 32}

/-- The store and the queue belong to this passphrase. -/
structure Keyed (C : Suite) (R : StoreRuntime) (sha256 : Bytes → Fixed 32) (passphrase : String)
    (disk : Disk) : Prop where
  sealed : ∃ salt key : Fixed 32, deriveKey R (encodeUtf8 passphrase) salt.toList = .ok key.toList ∧
    disk.msgs.metaTable = newMeta R salt key.toList
  queued : Readable C (deriveQueueKey sha256 passphrase) disk.fwd.rows

/-- The queue can be read with the key its rows were encrypted with. -/
theorem reads_of_readable (haead : C.AeadCorrect) (disk : Disk) (run : NodeRun)
    (h : Readable C (deriveQueueKey sha256 run.passphrase) disk.fwd.rows)
    (hopens : (openStore R disk.msgs run).1 = .ok ()) : Starts C R sha256 (disk, run) where
  opens := hopens
  reads done _ hopen now peerId := by
    obtain ⟨hkey, hrows⟩ := readable_run haead done (newQueue sha256 disk.fwd run) h
    rw [← hkey] at hrows
    exact getPending_readable hrows hopen now peerId

theorem runNode_identity (disk : Disk) (run : NodeRun) :
    (runNode C R sha256 disk run).identity = disk.identity := by
  unfold runNode
  split <;> rfl

theorem main_refused (sha256 : Bytes → Fixed 32) (disk : Disk) (run : NodeRun)
    (h : ¬ Accepted C R (disk, run)) :
    (main C R sha256 disk run).msgs = disk.msgs ∧ (main C R sha256 disk run).fwd = disk.fwd := by
  unfold main
  dsimp only
  split
  · exact ⟨rfl, rfl⟩
  · rename_i hload
    refine absurd ?_ h
    rw [Accepted, hload]
    rfl

theorem main_accepted (disk : Disk) (run : NodeRun) (h : Accepted C R (disk, run)) :
    main C R sha256 disk run =
      runNode C R sha256 { disk with identity := (load C R disk run).2 } run := by
  unfold main
  dsimp only
  split
  · rename_i hload
    rw [Accepted, hload] at h
    contradiction
  · rfl

/-- A run that starts leaves a store with the key check it opened, and a queue of its own key. -/
theorem keyed_runNode (haead : C.AeadCorrect) (disk : Disk) (run : NodeRun) (salt key : Fixed 32)
    (hkey : deriveKey R (encodeUtf8 run.passphrase) salt.toList = .ok key.toList)
    (hopens : (openStore R disk.msgs run).1 = .ok ())
    (hmeta : (openStore R disk.msgs run).2.db.metaTable = newMeta R salt key.toList)
    (hqueued : Readable C (deriveQueueKey sha256 run.passphrase) disk.fwd.rows) :
    Keyed C R sha256 run.passphrase (runNode C R sha256 disk run) := by
  unfold runNode
  split
  · rename_i hstore
    rw [hstore] at hopens
    contradiction
  · rename_i store hstore
    rw [hstore] at hmeta
    refine ⟨⟨salt, key, hkey, ?_⟩, ?_⟩
    · rw [← hmeta]
      apply metaTable_run _ store
      rw [hmeta]
      rfl
    · exact (readable_run haead (queueCalls run) (newQueue sha256 disk.fwd run) hqueued).2

theorem openStore_fresh (msgs : Database) (run : NodeRun) (hnew : msgs = .new)
    (hderives : Derives R (encodeUtf8 run.passphrase)) : ∃ key : Fixed 32,
    deriveKey R (encodeUtf8 run.passphrase) run.salt.toList = .ok key.toList ∧
    (openStore R msgs run).1 = .ok () ∧
    (openStore R msgs run).2.db.metaTable = newMeta R run.salt key.toList := by
  obtain ⟨key, hkey⟩ := hderives run.salt
  have hclosed : (MessageStore.init (.text run.passphrase) msgs).isOpen = false := rfl
  have hunsalted : msgs.metaTable.kdfSalt = none := by
    rw [hnew]
    rfl
  have hopened : openStore R msgs run = (.ok (), ⟨encodeUtf8 run.passphrase, some key.toList, true,
      ⟨newMeta R run.salt key.toList, msgs.messages⟩⟩) := by
    unfold openStore MessageStore.openFile
    rw [hclosed, if_neg Bool.false_ne_true]
    simp only [MessageStore.init, normalizePassphrase, hunsalted, hkey]
  refine ⟨key, hkey, ?_, ?_⟩
  · rw [hopened]
  · rw [hopened]

/-- A store opens with a passphrase exactly when that gives the key of its check. -/
theorem openStore_keyed (msgs : Database) (run : NodeRun) (salt own key : Fixed 32)
    (hmeta : msgs.metaTable = newMeta R salt own.toList)
    (hkey : deriveKey R (encodeUtf8 run.passphrase) salt.toList = .ok key.toList) :
    (openStore R msgs run).1 =
        (if checkOf R key.toList = checkOf R own.toList then .ok () else .error .invalidTag) ∧
      (openStore R msgs run).2.db = msgs := by
  have hreopen := reopenKey_newMeta (R := R) _ own.toList _ salt hkey
  have hsalt : msgs.metaTable.kdfSalt = some (b64encode salt.toList) := by
    rw [hmeta]
    rfl
  rw [← hmeta] at hreopen
  have hclosed : (MessageStore.init (.text run.passphrase) msgs).isOpen = false := rfl
  have hopened : openStore R msgs run =
      if (checkOf R key.toList).toList = (checkOf R own.toList).toList then
        (.ok (), ⟨encodeUtf8 run.passphrase, some key.toList, true, msgs⟩)
      else (.error .invalidTag, MessageStore.init (.text run.passphrase) msgs) := by
    unfold openStore MessageStore.openFile
    rw [hclosed, if_neg Bool.false_ne_true]
    simp only [MessageStore.init, normalizePassphrase, hsalt, hreopen]
  rw [hopened]
  by_cases hcheck : checkOf R key.toList = checkOf R own.toList
  · rw [if_pos (congrArg List.Vector.toList hcheck), if_pos hcheck]
    exact ⟨rfl, rfl⟩
  · rw [if_neg fun heq => hcheck (List.Vector.toList_injective heq), if_neg hcheck]
    exact ⟨rfl, rfl⟩

variable {passphrases : List String}

theorem Tellable.mono {fewer : List String} (h : Tellable R passphrases)
    (hsub : fewer ⊆ passphrases) : Tellable R fewer where
  derives p hp := h.derives p (hsub hp)
  distinct p hp q hq := h.distinct p (hsub hp) q (hsub hq)

/-- Another passphrase does not open the store. -/
theorem openStore_other (htellable : Tellable R passphrases) {passphrase : String}
    (hmem : passphrase ∈ passphrases) (disk : Disk) (h : Keyed C R sha256 passphrase disk)
    (run : NodeRun) (hrun : run.passphrase ∈ passphrases) (hne : run.passphrase ≠ passphrase) :
    (openStore R disk.msgs run).1 = .error .invalidTag := by
  obtain ⟨salt, own, hown, hmeta⟩ := h.sealed
  obtain ⟨key, hkey⟩ := htellable.derives _ hrun salt
  rw [(openStore_keyed disk.msgs run salt own key hmeta hkey).1, if_neg]
  exact fun hcheck => hne (htellable.distinct _ hrun _ hmem salt key own hkey hown hcheck)

/-- On files of a passphrase a run starts exactly when it has that passphrase. -/
theorem starts_keyed (sha256 : Bytes → Fixed 32) (haead : C.AeadCorrect)
    (htellable : Tellable R passphrases) {passphrase : String} (hmem : passphrase ∈ passphrases)
    (disk : Disk) (h : Keyed C R sha256 passphrase disk) (run : NodeRun)
    (hrun : run.passphrase ∈ passphrases) :
    Starts C R sha256 (disk, run) ↔ run.passphrase = passphrase := by
  constructor
  · intro hstarts
    by_contra hne
    have hother := openStore_other htellable hmem disk h run hrun hne
    cases hstarts.opens.symm.trans hother
  · rintro rfl
    obtain ⟨⟨salt, own, hown, hmeta⟩, hqueued⟩ := h
    have hopens := (openStore_keyed disk.msgs run salt own own hmeta hown).1
    rw [if_pos rfl] at hopens
    exact reads_of_readable haead disk run hqueued hopens

theorem keyed_main (haead : C.AeadCorrect) {passphrase : String} (disk : Disk)
    (h : Keyed C R sha256 passphrase disk) (run : NodeRun) (hrun : run.passphrase = passphrase) :
    Keyed C R sha256 passphrase (main C R sha256 disk run) := by
  subst hrun
  by_cases haccepted : Accepted C R (disk, run)
  · obtain ⟨⟨salt, own, hown, hmeta⟩, hqueued⟩ := h
    obtain ⟨hopens, hdb⟩ := openStore_keyed disk.msgs run salt own own hmeta hown
    rw [if_pos rfl] at hopens
    rw [main_accepted disk run haccepted]
    refine keyed_runNode haead _ run salt own hown hopens ?_ hqueued
    exact (congrArg Database.metaTable hdb).trans hmeta
  · obtain ⟨hmsgs, hfwd⟩ := main_refused sha256 disk run haccepted
    refine ⟨?_, ?_⟩
    · rw [hmsgs]
      exact h.sealed
    · rw [hfwd]
      exact h.queued

theorem all_start_keyed (haead : C.AeadCorrect) (htellable : Tellable R passphrases)
    {passphrase : String} (hmem : passphrase ∈ passphrases) (runs : List NodeRun)
    (hruns : ∀ run ∈ runs, run.passphrase ∈ passphrases) (disk : Disk)
    (h : Keyed C R sha256 passphrase disk) :
    (∀ v ∈ Runs.visits (main C R sha256) disk runs, Accepted C R v → Starts C R sha256 v) ↔
      ∀ v ∈ Runs.visits (main C R sha256) disk runs, Accepted C R v →
        v.2.passphrase = passphrase := by
  induction runs generalizing disk with
  | nil =>
    refine iff_of_true (fun v hv => ?_) fun v hv => ?_
    · exact absurd hv List.not_mem_nil
    · exact absurd hv List.not_mem_nil
  | cons run rest ih =>
    have hstarts := starts_keyed sha256 haead htellable hmem disk h run
      (hruns run List.mem_cons_self)
    have hrest := ih fun r hr => hruns r (List.mem_cons_of_mem run hr)
    simp only [Runs.visits, List.forall_mem_cons]
    by_cases haccepted : Accepted C R (disk, run)
    · by_cases hsame : run.passphrase = passphrase
      · rw [hrest _ (keyed_main haead disk h run hsame)]
        exact and_congr_left fun _ => imp_congr_right fun _ => hstarts
      · exact iff_of_false (fun hall => hsame (hstarts.mp (hall.1 haccepted)))
          fun hall => hsame (hall.1 haccepted)
    · obtain ⟨hmsgs, hfwd⟩ := main_refused sha256 disk run haccepted
      have hnext : Keyed C R sha256 passphrase (main C R sha256 disk run) :=
        ⟨by rw [hmsgs]; exact h.sealed, by rw [hfwd]; exact h.queued⟩
      rw [hrest _ hnext]
      exact and_congr_left fun _ => iff_of_true (fun ha => absurd ha haccepted)
        fun ha => absurd ha haccepted

/-- The first accepted run opens new files, and they are its passphrase's from then on. -/
theorem first_run (sha256 : Bytes → Fixed 32) (haead : C.AeadCorrect) (disk : Disk)
    (hfresh : Fresh disk) (run : NodeRun) (hderives : Derives R (encodeUtf8 run.passphrase))
    (haccepted : Accepted C R (disk, run)) :
    Starts C R sha256 (disk, run) ∧
      Keyed C R sha256 run.passphrase (main C R sha256 disk run) := by
  have hqueued : Readable C (deriveQueueKey sha256 run.passphrase) disk.fwd.rows := by
    rw [hfresh.2]
    exact fun row hrow => absurd hrow List.not_mem_nil
  obtain ⟨key, hkey, hopens, hmeta⟩ := openStore_fresh disk.msgs run hfresh.1 hderives
  refine ⟨reads_of_readable haead disk run hqueued hopens, ?_⟩
  rw [main_accepted disk run haccepted]
  exact keyed_runNode haead _ run run.salt key hkey hopens hmeta hqueued

/-- From new files on, every run whose passphrase load_identity() takes starts, and can read its
queue, exactly when all those runs have one passphrase: the real and the duress passphrase of an
identity are two. -/
theorem all_start_iff (C : Suite) (R : StoreRuntime) (sha256 : Bytes → Fixed 32)
    (haead : C.AeadCorrect) (disk : Disk) (hfresh : Fresh disk) (runs : List NodeRun)
    (htellable : Tellable R (runs.map NodeRun.passphrase)) :
    (∀ v ∈ Runs.visits (main C R sha256) disk runs, Accepted C R v → Starts C R sha256 v) ↔
      ∃ passphrase, ∀ v ∈ Runs.visits (main C R sha256) disk runs, Accepted C R v →
        v.2.passphrase = passphrase := by
  induction runs generalizing disk with
  | nil =>
    refine iff_of_true (fun v hv => ?_) ⟨"", fun v hv => ?_⟩
    · exact absurd hv List.not_mem_nil
    · exact absurd hv List.not_mem_nil
  | cons run rest ih =>
    have hrun : run.passphrase ∈ (run :: rest).map NodeRun.passphrase := List.mem_cons_self
    have hmem : ∀ r ∈ rest, r.passphrase ∈ (run :: rest).map NodeRun.passphrase := fun r hr =>
      List.mem_map_of_mem (List.mem_cons_of_mem run hr)
    simp only [Runs.visits, List.forall_mem_cons]
    by_cases haccepted : Accepted C R (disk, run)
    · obtain ⟨hstarts, hkeyed⟩ := first_run sha256 haead disk hfresh run
        (htellable.derives _ hrun) haccepted
      rw [all_start_keyed haead htellable hrun rest hmem _ hkeyed]
      constructor
      · exact fun hall => ⟨run.passphrase, fun _ => rfl, hall.2⟩
      · rintro ⟨passphrase, hfirst, hrest⟩
        rw [← hfirst haccepted] at hrest
        exact ⟨fun _ => hstarts, hrest⟩
    · obtain ⟨hmsgs, hfwd⟩ := main_refused sha256 disk run haccepted
      have hfresh' : Fresh (main C R sha256 disk run) :=
        ⟨hmsgs.trans hfresh.1, by rw [hfwd]; exact hfresh.2⟩
      have hfewer : Tellable R (rest.map NodeRun.passphrase) :=
        htellable.mono fun p hp => List.mem_cons_of_mem _ hp
      rw [ih _ hfresh' hfewer, and_iff_right fun ha => absurd ha haccepted]
      refine exists_congr fun passphrase => ?_
      rw [and_iff_right fun ha => absurd ha haccepted]

end Runs

section Saved

open Duress

/-- The identity file was saved for this passphrase, without a duress passphrase. -/
structure Plain (C : Suite) (R : StoreRuntime) (passphrases : List Passphrase) (passphrase : String)
    (disk : Disk) : Prop where
  own : Passphrase.text passphrase ∈ passphrases
  saved : ∃ draws x, KeysMatch R.toRuntime x ∧
    saveIdentity C R.toRuntime draws x (.text passphrase) none = .ok disk.identity

/-- The identity file was saved for `r`, with `d` as the duress passphrase. -/
structure Armed (C : Suite) (R : StoreRuntime) (passphrases : List Passphrase) (r d : String)
    (disk : Disk) : Prop where
  real : Passphrase.text r ∈ passphrases
  duress : Passphrase.text d ∈ passphrases
  distinct : r ≠ d
  saved : ∃ draws identity, Callsign identity.callsign ∧ KeysMatch R.toRuntime (loaded identity) ∧
    saveIdentity C R.toRuntime draws (loaded identity) (.text r) (some (.text d)) = .ok disk.identity

variable {C : Suite} {R : StoreRuntime} {passphrases : List Passphrase}
variable {r d passphrase : String} {disk : Disk} (sha256 : Bytes → Fixed 32)

/-- Only the load of a run writes to the identity file. -/
theorem main_identity (disk : Disk) (run : NodeRun) :
    (main C R sha256 disk run).identity = (load C R disk run).2 := by
  unfold main
  dsimp only
  split
  · rfl
  · exact runNode_identity _ run

theorem Plain.of_identity {disk' : Disk} (h : Plain C R passphrases passphrase disk)
    (hidentity : disk'.identity = disk.identity) : Plain C R passphrases passphrase disk' :=
  ⟨h.own, by rw [hidentity]; exact h.saved⟩

theorem Armed.of_identity {disk' : Disk} (h : Armed C R passphrases r d disk)
    (hidentity : disk'.identity = disk.identity) : Armed C R passphrases r d disk' :=
  ⟨h.real, h.duress, h.distinct, by rw [hidentity]; exact h.saved⟩

theorem text_injective {p q : String}
    (h : normalizePassphrase (.text p) = normalizePassphrase (.text q)) : p = q :=
  encodeUtf8_injective h

theorem plain_step (hsecure : Secure C R.toRuntime passphrases) (haead : C.AeadCorrect)
    (h : Plain C R passphrases passphrase disk) (run : NodeRun)
    (hrun : Passphrase.text run.passphrase ∈ passphrases) :
    (Accepted C R (disk, run) ↔ run.passphrase = passphrase) ∧
      Plain C R passphrases passphrase (main C R sha256 disk run) := by
  obtain ⟨draws, x, hkeys, hsave⟩ := h.saved
  have hload := load_plain hsecure haead draws run.loadDraws x hkeys disk.identity h.own hrun hsave
  refine ⟨?_, h.of_identity ?_⟩
  · rw [Accepted, load, hload]
    by_cases hsame : run.passphrase = passphrase
    · rw [hsame, if_pos rfl]
      exact iff_of_true rfl rfl
    · rw [if_neg fun heq => hsame (text_injective heq)]
      exact iff_of_false Bool.false_ne_true hsame
  · rw [main_identity, load, hload]

/-- An identity saved without a duress passphrase takes the passphrase it was saved for. -/
theorem accepted_plain (hsecure : Secure C R.toRuntime passphrases) (haead : C.AeadCorrect)
    (h : Plain C R passphrases passphrase disk) (runs : List NodeRun)
    (hruns : ∀ run ∈ runs, Passphrase.text run.passphrase ∈ passphrases) :
    ∀ v ∈ Runs.visits (main C R sha256) disk runs,
      Accepted C R v ↔ v.2.passphrase = passphrase := by
  induction runs generalizing disk with
  | nil => exact fun v hv => absurd hv List.not_mem_nil
  | cons run rest ih =>
    obtain ⟨haccepted, hnext⟩ := plain_step sha256 hsecure haead h run
      (hruns run List.mem_cons_self)
    rw [Runs.visits, List.forall_mem_cons]
    exact ⟨haccepted, ih hnext fun next hmem => hruns next (List.mem_cons_of_mem run hmem)⟩

/-- The duress passphrase leaves the identity of the decoy, any other one leaves the file. -/
theorem armed_step (hsecure : Secure C R.toRuntime passphrases) (haead : C.AeadCorrect)
    (hupper : UpperAscii R.toRuntime) (h : Armed C R passphrases r d disk) (run : NodeRun)
    (hrun : Passphrase.text run.passphrase ∈ passphrases) :
    (Accepted C R (disk, run) ↔ run.passphrase = r ∨ run.passphrase = d) ∧
      (run.passphrase = d → Plain C R passphrases d (main C R sha256 disk run)) ∧
      (run.passphrase ≠ d → Armed C R passphrases r d (main C R sha256 disk run)) := by
  obtain ⟨draws, identity, hcallsign, hkeys, hsave⟩ := h.saved
  have hne : normalizePassphrase (.text r) ≠ normalizePassphrase (.text d) :=
    fun heq => h.distinct (text_injective heq)
  obtain ⟨hreal, hduress, hrefused⟩ := load_armed hsecure haead hupper draws run.loadDraws identity
    hcallsign hkeys disk.identity h.real h.duress hrun hne hsave
  by_cases hd : run.passphrase = d
  · rw [hd] at hduress
    obtain ⟨wiped, hwiped, hload⟩ := hduress rfl
    rw [← hd] at hload
    refine ⟨iff_of_true ?_ (Or.inr hd), fun _ => ⟨h.duress, ?_⟩, fun hother => absurd hd hother⟩
    · rw [Accepted, load, hload]
      rfl
    · refine ⟨_, _, keysMatch_loadedDecoy _ _ _, hwiped.trans ?_⟩
      rw [main_identity, load, hload]
  · have hkept : (loadIdentity C R.toRuntime run.loadDraws disk.identity (.text run.passphrase)).2 =
          disk.identity ∧
        (Accepted C R (disk, run) ↔ run.passphrase = r) := by
      by_cases hr : run.passphrase = r
      · have hload := hreal (by rw [hr])
        rw [Accepted, load, hload]
        exact ⟨rfl, iff_of_true rfl hr⟩
      · have hload := hrefused (fun heq => hr (text_injective heq)) fun heq =>
          hd (text_injective heq)
        rw [Accepted, load, hload]
        exact ⟨rfl, iff_of_false Bool.false_ne_true hr⟩
    obtain ⟨hfile, haccepted⟩ := hkept
    refine ⟨haccepted.trans (or_iff_left hd).symm, fun heq => absurd heq hd,
      fun _ => h.of_identity ?_⟩
    rw [main_identity, load, hfile]

theorem accepted_real (hsecure : Secure C R.toRuntime passphrases) (haead : C.AeadCorrect)
    (hupper : UpperAscii R.toRuntime) (h : Armed C R passphrases r d disk) (runs : List NodeRun)
    (hruns : ∀ run ∈ runs, Passphrase.text run.passphrase ∈ passphrases) :
    (∀ v ∈ Runs.visits (main C R sha256) disk runs, Accepted C R v → v.2.passphrase = r) ↔
      ∀ run ∈ runs, run.passphrase ≠ d := by
  induction runs generalizing disk with
  | nil =>
    refine iff_of_true (fun v hv => ?_) fun run hrun => ?_
    · exact absurd hv List.not_mem_nil
    · exact absurd hrun List.not_mem_nil
  | cons run rest ih =>
    obtain ⟨haccepted, -, harmed⟩ := armed_step sha256 hsecure haead hupper h run
      (hruns run List.mem_cons_self)
    rw [Runs.visits, List.forall_mem_cons, List.forall_mem_cons, haccepted]
    by_cases hd : run.passphrase = d
    · exact iff_of_false (fun hall => h.distinct ((hall.1 (Or.inr hd)).symm.trans hd))
        fun hall => hall.1 hd
    · rw [ih (harmed hd) fun next hmem => hruns next (List.mem_cons_of_mem run hmem)]
      exact and_congr_left fun _ => iff_of_true (fun hor => hor.resolve_right hd) hd

/-- The runs that load_identity() takes have one passphrase exactly when the duress passphrase is
not used at all, or the real one is not used before it. -/
theorem accepted_armed (hsecure : Secure C R.toRuntime passphrases) (haead : C.AeadCorrect)
    (hupper : UpperAscii R.toRuntime) (h : Armed C R passphrases r d disk) (runs : List NodeRun)
    (hruns : ∀ run ∈ runs, Passphrase.text run.passphrase ∈ passphrases) :
    (∃ p, ∀ v ∈ Runs.visits (main C R sha256) disk runs, Accepted C R v → v.2.passphrase = p) ↔
      (∀ run ∈ runs, run.passphrase ≠ d) ∨
        ∀ run ∈ runs.takeWhile fun run => decide (run.passphrase ≠ d), run.passphrase ≠ r := by
  induction runs generalizing disk with
  | nil =>
    refine iff_of_true ⟨r, fun v hv => ?_⟩ (Or.inl fun run hrun => ?_)
    · exact absurd hv List.not_mem_nil
    · exact absurd hrun List.not_mem_nil
  | cons run rest ih =>
    have hrest : ∀ next ∈ rest, Passphrase.text next.passphrase ∈ passphrases := fun next hmem =>
      hruns next (List.mem_cons_of_mem run hmem)
    obtain ⟨haccepted, hwiped, harmed⟩ := armed_step sha256 hsecure haead hupper h run
      (hruns run List.mem_cons_self)
    simp only [Runs.visits, List.forall_mem_cons, haccepted]
    by_cases hd : run.passphrase = d
    · -- from here on the identity is the decoy's, and only `d` is taken
      have hplain := accepted_plain sha256 hsecure haead (hwiped hd) rest hrest
      refine iff_of_true ⟨d, fun _ => hd, fun v hv => (hplain v hv).mp⟩ (Or.inr ?_)
      rw [List.takeWhile_cons, if_neg (by rw [hd]; simp)]
      exact fun next hnext => absurd hnext List.not_mem_nil
    · rw [List.takeWhile_cons, if_pos (decide_eq_true hd), List.forall_mem_cons]
      by_cases hr : run.passphrase = r
      · have hreal := accepted_real sha256 hsecure haead hupper (harmed hd) rest hrest
        constructor
        · rintro ⟨p, hfirst, hall⟩
          rw [← hfirst (Or.inl hr), hr] at hall
          exact Or.inl ⟨hd, hreal.mp hall⟩
        · rintro (⟨-, hnone⟩ | ⟨hother, -⟩)
          · exact ⟨r, fun _ => hr, hreal.mpr hnone⟩
          · exact absurd hr hother
      · have hrefused : ¬ (run.passphrase = r ∨ run.passphrase = d) := by
          rintro (heq | heq)
          · exact hr heq
          · exact hd heq
        rw [and_iff_right hd, and_iff_right hr, ← ih (harmed hd) hrest]
        refine exists_congr fun p => ?_
        rw [and_iff_right fun hor => absurd hor hrefused]

end Saved

section Stub

open Duress Honest

def stubSha256 (b : Bytes) : Fixed 32 := checksum 32 b

/-- A run that does nothing with its files. -/
def idleRun (passphrase : String) : NodeRun where
  passphrase := passphrase
  loadDraws := stubDraws "unused" (List.Vector.replicate 32 9)
  salt := List.Vector.replicate 32 0
  startNow := 0
  storeCalls := []
  queueCalls := []
  stopNow := 1

theorem tellable_stub : Tellable stubStore ["alpha", "bravo"] := by
  refine ⟨fun p _ => derives_stub _, fun p hp q hq salt key key' hkey hkey' hcheck => ?_⟩
  have hkeyOf : ∀ (s : String) (k : Fixed 32),
      deriveKey stubStore (encodeUtf8 s) salt.toList = .ok k.toList →
        k = stubWrapKey (encodeUtf8 s) :=
    fun s k h => Subtype.ext (Except.ok.inj h).symm
  rw [hkeyOf p key hkey, hkeyOf q key' hkey'] at hcheck
  simp only [List.mem_cons, List.not_mem_nil, or_false] at hp hq
  rcases hp with rfl | rfl <;> rcases hq with rfl | rfl
  · rfl
  · exact absurd hcheck (by decide +kernel)
  · exact absurd hcheck (by decide +kernel)
  · rfl

/-- Alpha's identity with bravo as the duress passphrase, and no other files. -/
theorem exists_armed : ∃ (disk : Disk) (draws : SaveDraws), Fresh disk ∧
    saveIdentity stub stubStore.toRuntime draws (loaded alpha) (.text "alpha") (some (.text "bravo")) =
      .ok disk.identity ∧
    load stub stubStore disk (idleRun "alpha") = (.ok (loaded alpha), disk.identity) ∧
    ∃ decoy wiped, load stub stubStore disk (idleRun "bravo") = (.ok decoy, wiped) := by
  let draws := stubDraws "decoy" (List.Vector.replicate 32 7)
  have hupper : UpperAscii stubRuntime := fun s _ => rfl
  have hcallsign : Callsign alpha.callsign := by decide
  have hr : Passphrase.text "alpha" ∈ [Passphrase.text "alpha", .text "bravo", .text "charlie"] := by
    simp
  have hd : Passphrase.text "bravo" ∈ [Passphrase.text "alpha", .text "bravo", .text "charlie"] := by
    simp
  have hne : normalizePassphrase (.text "alpha") ≠ normalizePassphrase (.text "bravo") := by decide
  obtain ⟨key, dKey, _, _, hsave⟩ := save_armed secure_stub hupper draws alpha hcallsign hr hd
  have harmed := fun q hq => load_armed (q := q) secure_stub stub_aeadCorrect hupper draws
    (idleRun "alpha").loadDraws alpha hcallsign keysMatch_alpha _ hr hd hq hne hsave
  obtain ⟨wiped, _, hduress⟩ := (harmed (.text "bravo") hd).2.1 rfl
  exact ⟨⟨_, .new, .empty⟩, draws, ⟨rfl, rfl⟩, hsave, (harmed (.text "alpha") hr).1 rfl,
    _, wiped, hduress⟩

theorem accepted_of_load {disk : Disk} {run : NodeRun} {identity : LoadedIdentity} {file : Value}
    (h : load stub stubStore disk run = (.ok identity, file)) :
    Accepted stub stubStore (disk, run) := by
  rw [Accepted, h]
  rfl

/-- A load that leaves the identity file as it is can be made again after the run. -/
theorem load_after {disk : Disk} (run next : NodeRun) {identity : LoadedIdentity}
    (h : load stub stubStore disk run = (.ok identity, disk.identity)) :
    load stub stubStore (main stub stubStore stubSha256 disk run) next =
      load stub stubStore disk next := by
  have hidentity : (main stub stubStore stubSha256 disk run).identity = disk.identity := by
    rw [main_accepted disk run (accepted_of_load h), runNode_identity, h]
  rw [load, hidentity]
  rfl

/-- A run with the passphrase, and then one with the duress passphrase: the identity loads, and
the store does not open. -/
theorem duress_does_not_start : ∃ (disk : Disk) (draws : SaveDraws) (v : Disk × NodeRun), Fresh disk ∧
    saveIdentity stub stubStore.toRuntime draws (loaded alpha) (.text "alpha") (some (.text "bravo")) =
      .ok disk.identity ∧
    Accepted stub stubStore (disk, idleRun "alpha") ∧
    v ∈ Runs.visits (main stub stubStore stubSha256) disk [idleRun "alpha", idleRun "bravo"] ∧
    Accepted stub stubStore v ∧ (openStore stubStore v.1.msgs v.2).1 = .error .invalidTag := by
  obtain ⟨disk, draws, hfresh, hsave, hreal, decoy, wiped, hduress⟩ := exists_armed
  have hfirst := accepted_of_load hreal
  have hkeyed := (first_run stubSha256 stub_aeadCorrect disk hfresh (idleRun "alpha")
    (derives_stub _) hfirst).2
  refine ⟨disk, draws, (main stub stubStore stubSha256 disk (idleRun "alpha"), idleRun "bravo"),
    hfresh, hsave, hfirst, ?_, ?_, ?_⟩
  · exact List.mem_cons_of_mem _ List.mem_cons_self
  · exact accepted_of_load ((load_after (idleRun "alpha") (idleRun "bravo") hreal).trans hduress)
  · exact openStore_other tellable_stub (by simp [idleRun]) _ hkeyed (idleRun "bravo")
      (by simp [idleRun]) (by decide)

/-- Two runs with either passphrase both start; of one with each, the second does not. -/
theorem all_start_iff_alpha : ∃ disk : Disk,
    (∀ v ∈ Runs.visits (main stub stubStore stubSha256) disk [idleRun "alpha", idleRun "alpha"],
      Accepted stub stubStore v) ∧
    (∀ v ∈ Runs.visits (main stub stubStore stubSha256) disk [idleRun "alpha", idleRun "alpha"],
      Accepted stub stubStore v → Starts stub stubStore stubSha256 v) ∧
    (∀ v ∈ Runs.visits (main stub stubStore stubSha256) disk [idleRun "bravo", idleRun "bravo"],
      Accepted stub stubStore v → Starts stub stubStore stubSha256 v) ∧
    ¬ ∀ v ∈ Runs.visits (main stub stubStore stubSha256) disk [idleRun "alpha", idleRun "bravo"],
      Accepted stub stubStore v → Starts stub stubStore stubSha256 v := by
  obtain ⟨disk, draws, hfresh, hsave, hreal, _⟩ := exists_armed
  let passphrases : List Passphrase := [.text "alpha", .text "bravo", .text "charlie"]
  have harmed : Armed stub stubStore passphrases "alpha" "bravo" disk :=
    ⟨by simp [passphrases], by simp [passphrases], by decide,
      draws, alpha, by decide, keysMatch_alpha, hsave⟩
  have hstart : ∀ p ∈ ["alpha", "bravo"], ∀ q ∈ ["alpha", "bravo"],
      ((∀ v ∈ Runs.visits (main stub stubStore stubSha256) disk [idleRun p, idleRun q],
        Accepted stub stubStore v → Starts stub stubStore stubSha256 v) ↔
        (∀ run ∈ [idleRun p, idleRun q], run.passphrase ≠ "bravo") ∨
          ∀ run ∈ [idleRun p, idleRun q].takeWhile fun run => decide (run.passphrase ≠ "bravo"),
            run.passphrase ≠ "alpha") := by
    intro p hp q hq
    have htellable : Tellable stubStore ([idleRun p, idleRun q].map NodeRun.passphrase) :=
      tellable_stub.mono (by simpa [idleRun] using And.intro hp hq)
    have hruns : ∀ run ∈ [idleRun p, idleRun q], Passphrase.text run.passphrase ∈ passphrases := by
      simp only [List.mem_cons, List.not_mem_nil, or_false] at hp hq
      rcases hp with rfl | rfl <;> rcases hq with rfl | rfl <;> simp [idleRun, passphrases]
    exact (all_start_iff stub stubStore stubSha256 stub_aeadCorrect disk hfresh _ htellable).trans
      (accepted_armed stubSha256 secure_stub stub_aeadCorrect (fun _ _ => rfl) harmed _ hruns)
  refine ⟨disk, fun v hv => ?_, ?_, ?_, ?_⟩
  · simp only [Runs.visits, List.mem_cons, List.not_mem_nil, or_false] at hv
    rcases hv with rfl | rfl
    · exact accepted_of_load hreal
    · exact accepted_of_load ((load_after (idleRun "alpha") (idleRun "alpha") hreal).trans hreal)
  · exact (hstart "alpha" (by simp) "alpha" (by simp)).mpr (by simp [idleRun])
  · exact (hstart "bravo" (by simp) "bravo" (by simp)).mpr (by simp [idleRun])
  · exact mt (hstart "alpha" (by simp) "bravo" (by simp)).mp (by simp [idleRun])

end Stub

end Mesim.NodeRuns
