import Mesim.PeerHistory

/-!
What the command line shows of a history.
`history <peer_id>` asks the store for twenty messages, and the store counts from the
oldest. It prints a line for each through a console that takes tags in square brackets
out of what it prints, and raises at a tag that closes nothing. So the latest messages
are shown while there are no more than twenty and the console leaves their lines alone;
after that every later one is left out. How times are written and what the console makes
of a text are parameters.
-/
namespace Mesim.LatestHistory

open Octets TextCodec Crypto Identity Transport IdentityFile MessageStore MessageLog PeerHistory

section Model

variable (C : Suite) (formatTimestamp : ℚ → Except PyError String)
variable (console : String → Except PyError String)

def formatMessageLine (direction callsign text : String) (ts : ℚ) : Except PyError String := do
  let t ← formatTimestamp ts
  if direction = "sent" then return s!"[{t}] YOU → {callsign}: {text}"
  return s!"[{t}] {callsign} → YOU: {text}"

/-- The text of a message, or a note of its size when it is no UTF-8. -/
def textOf (plaintext : Bytes) : String :=
  let size := plaintext.length
  (decodeUtf8 plaintext).getD s!"<binary {size} bytes>"

/-- What has been printed, and the exception that ended it. -/
structure Screen where
  lines : List String
  raised : Option PyError
  deriving DecidableEq

/-- What the calls of console.print() leave, up to the first that raises. -/
def printAll : List (Except PyError String) → Screen
  | [] => ⟨[], none⟩
  | .error e :: _ => ⟨[], some e⟩
  | .ok text :: rest => { printAll rest with lines := text :: (printAll rest).lines }

def callsignOf (t : MeshTransport) (peerId : String) : String :=
  match t.sessions.get? peerId with
  | some session => session.peerBundle.callsign
  | none => String.ofList (peerId.toList.take 8)

def messageLine (callsign : String) (m : StoredMessage) : Except PyError String :=
  formatMessageLine formatTimestamp m.direction callsign (textOf m.plaintext) m.timestamp

def noMessages : String := "  (no messages)"

def cmdHistory (t : MeshTransport) (s : MessageStore) (peerId : Option String) : Screen :=
  match peerId with
  | none => printAll [console "  Usage: history <peer_id>"]
  | some peerId =>
    match s.getHistory C peerId 20 none with
    | .error e => ⟨[], some e⟩
    | .ok msgs =>
      if msgs.isEmpty then printAll [console noMessages]
      else
        let callsign := callsignOf t peerId
        printAll (msgs.map fun m => messageLine formatTimestamp callsign m >>= console)

/-- The part of handle_command() that shows a history. -/
def handleCommand (t : MeshTransport) (s : MessageStore) (line : String) : Option Screen :=
  match Repl.command line with
  | some (.history peerId) => some (cmdHistory C formatTimestamp console t s peerId)
  | _ => none

/-- The screen has the lines of these messages, or the note that there are none. -/
def Shows (callsign : String) (screen : Screen) (shown : List StoredMessage) : Prop :=
  screen.raised = none ∧ screen.lines.map Except.ok =
    if shown.isEmpty then [.ok noMessages] else shown.map (messageLine formatTimestamp callsign)

/-- What the console makes of the line of `a` is the line of `b`. -/
def ReadsAs (callsign : String) (a b : StoredMessage) : Prop :=
  ∃ text, messageLine formatTimestamp callsign a >>= console = .ok text ∧
    messageLine formatTimestamp callsign b = .ok text

/-- Up to twenty messages in order have lines that the console leaves alone; of more than twenty the
first read like the last. -/
def Legible (callsign : String) (messages : List StoredMessage) : Prop :=
  if messages = [] then console noMessages = .ok noMessages
  else if messages.length ≤ 20 then
    ∀ m ∈ messages, ReadsAs formatTimestamp console callsign m m
  else List.Forall₂ (ReadsAs formatTimestamp console callsign) (messages.take 20)
    (messages.drop (messages.length - 20))

/-- What the rows say once they are decrypted. -/
def contents (key : Bytes) (s : MessageStore) : List StoredMessage :=
  s.db.messages.rows.map (messageOf C key)

/-- The messages of a peer that fewer than so many of its others come after, by time and id. -/
structure IsLatest (messages : List StoredMessage) (peerId : String) (limit : ℕ)
    (shown : List StoredMessage) : Prop where
  sorted : shown.Pairwise fun a b =>
    a.timestamp < b.timestamp ∨ a.timestamp = b.timestamp ∧ a.id < b.id
  mem : ∀ m, m ∈ shown ↔ (m ∈ messages ∧ m.peerId = peerId) ∧
    (messages.countP fun other => other.peerId = peerId ∧
      (m.timestamp < other.timestamp ∨ m.timestamp = other.timestamp ∧ m.id < other.id)) < limit

end Model

section Order

variable {α : Type} {r : α → α → Prop} [DecidableRel r]

/-- The end of a list in order has the entries that fewer than so many come after. -/
theorem mem_drop_iff {l : List α} (hsorted : l.Pairwise r) (hasymm : ∀ a b, r a b → ¬ r b a) (n : ℕ)
    (m : α) : m ∈ l.drop (l.length - n) ↔ m ∈ l ∧ (l.countP fun other => r m other) < n := by
  have hirrefl : ∀ a, ¬ r a a := fun a h => hasymm a a h h
  by_cases hn : l.length ≤ n
  · rw [Nat.sub_eq_zero_of_le hn, List.drop_zero]
    refine (and_iff_left_of_imp fun hmem => ?_).symm
    have hself : (l.countP fun other => r m other) < l.length :=
      List.countP_lt_length_iff.mpr ⟨m, hmem, by simp [hirrefl]⟩
    omega
  induction l with
  | nil => exact absurd (Nat.zero_le n) hn
  | cons first rest ih =>
    rw [List.length_cons] at hn ⊢
    have hlater : ∀ other ∈ rest, r first other := fun other => List.rel_of_pairwise_cons hsorted
    have hfirst : ((first :: rest).countP fun other => r first other) = rest.length := by
      rw [List.countP_cons_of_neg (by simp [hirrefl])]
      exact List.countP_eq_length.mpr fun other hother => decide_eq_true (hlater other hother)
    have hrest : m ∈ rest → ((first :: rest).countP fun other => r m other) =
        rest.countP fun other => r m other := fun hm =>
      List.countP_cons_of_neg (by simp [hasymm _ _ (hlater m hm)])
    have hnext : m ∈ rest.drop (rest.length - n) ↔
        m ∈ rest ∧ (rest.countP fun other => r m other) < n := by
      by_cases hlen : rest.length ≤ n
      · rw [Nat.sub_eq_zero_of_le hlen, List.drop_zero]
        refine (and_iff_left_of_imp fun hmem => ?_).symm
        have hself : (rest.countP fun other => r m other) < rest.length :=
          List.countP_lt_length_iff.mpr ⟨m, hmem, by simp [hirrefl]⟩
        omega
      · exact ih hsorted.of_cons hlen
    rw [show rest.length + 1 - n = (rest.length - n) + 1 by omega, List.drop_succ_cons, hnext,
      List.mem_cons]
    constructor
    · rintro ⟨hm, hfew⟩
      exact ⟨Or.inr hm, by rw [hrest hm]; exact hfew⟩
    · rintro ⟨rfl | hm, hfew⟩
      · omega
      · exact ⟨hm, by rw [← hrest hm]; exact hfew⟩

end Order

section Results

variable {C : Suite} {formatTimestamp : ℚ → Except PyError String}
variable {console : String → Except PyError String} {s : MessageStore} {key : Bytes}
variable {callsign peerId line : String}

/-- The calls leave these lines exactly when each of them prints its own. -/
theorem printAll_iff (calls expected : List (Except PyError String)) :
    ((printAll calls).raised = none ∧ (printAll calls).lines.map Except.ok = expected) ↔
      List.Forall₂ (fun a b => ∃ text, a = .ok text ∧ b = .ok text) calls expected := by
  induction calls generalizing expected with
  | nil =>
    simp only [printAll, List.map_nil, true_and, List.forall₂_nil_left_iff]
    exact eq_comm
  | cons call rest ih =>
    cases call with
    | error e => cases expected <;> simp [printAll]
    | ok text =>
      cases expected with
      | nil => simp [printAll]
      | cons first others =>
        rw [List.forall₂_cons, ← ih]
        simp only [printAll, List.map_cons, List.cons.injEq, Except.ok.injEq, exists_eq_left']
        rw [eq_comm (a := first)]
        tauto

/-- What the command prints has the lines of `shown` exactly when, one by one, the console makes them
of the lines of the messages that it reads. -/
theorem shows_cmdHistory (formatTimestamp : ℚ → Except PyError String)
    (console : String → Except PyError String) (t : MeshTransport) {msgs : List StoredMessage}
    (hread : s.getHistory C peerId 20 none = .ok msgs) (shown : List StoredMessage)
    (hempty : msgs = [] ↔ shown = []) :
    Shows formatTimestamp (callsignOf t peerId)
        (cmdHistory C formatTimestamp console t s (some peerId)) shown ↔
      if msgs = [] then console noMessages = .ok noMessages
      else List.Forall₂ (ReadsAs formatTimestamp console (callsignOf t peerId)) msgs shown := by
  by_cases hnone : msgs = []
  · have hshown : shown.isEmpty = true := List.isEmpty_iff.mpr (hempty.mp hnone)
    rw [if_pos hnone, Shows, cmdHistory, hread]
    simp only [hnone, List.isEmpty_nil, if_true, hshown]
    rw [printAll_iff]
    simp
  · have hsome : msgs.isEmpty = false := List.isEmpty_eq_false_iff.mpr hnone
    have hshown : shown.isEmpty = false :=
      List.isEmpty_eq_false_iff.mpr fun h => hnone (hempty.mpr h)
    rw [if_neg hnone, Shows, cmdHistory, hread]
    simp only [hsome, Bool.false_eq_true, if_false, hshown]
    rw [printAll_iff, List.forall₂_map_left_iff, List.forall₂_map_right_iff]
    rfl

/-- The store cuts the peer's messages after the oldest twenty. -/
theorem getHistory_oldest (hopen : s.assertOpen = .ok key)
    (hreadable : ∀ row ∈ s.db.messages.rows, row.peerId = peerId → Readable C key row) :
    s.getHistory C peerId 20 none = .ok ((listing (contents C key s) peerId none).take 20) := by
  refine getHistory_readable hopen peerId (by decide) (by simp) ?_
  intro row hrow hlisted
  exact hreadable row hrow (by simpa [isListed] using hlisted)

theorem nodup_contents : ((contents C key s).map StoredMessage.id).Nodup := by
  rw [contents, List.map_map]
  exact s.db.messages.nodup_ids

theorem mem_listing {messages : List StoredMessage} {m : StoredMessage} :
    m ∈ listing messages peerId none ↔ m ∈ messages ∧ m.peerId = peerId := by
  simp [listing]

theorem countP_listing {messages : List StoredMessage} (condition : StoredMessage → Prop)
    [DecidablePred condition] :
    ((listing messages peerId none).countP fun m => condition m) =
      messages.countP fun m => m.peerId = peerId ∧ condition m := by
  rw [listing, (List.perm_insertionSort _ _).countP_eq, List.countP_filter]
  refine List.countP_congr fun m _ => ?_
  simp [and_comm]

theorem length_listing : (listing (contents C key s) peerId none).length =
    s.db.messages.rows.countP fun row => row.peerId = peerId := by
  rw [listing, List.length_insertionSort, contents, List.filter_map, List.length_map,
    List.countP_eq_length_filter]
  exact congrArg List.length (List.filter_congr fun row _ => Bool.and_true _)

/-- The latest messages of a peer are the end of its listing. -/
theorem isLatest_iff (C : Suite) (s : MessageStore) (key : Bytes) (peerId : String) (limit : ℕ)
    (shown : List StoredMessage) : IsLatest (contents C key s) peerId limit shown ↔
      shown = (listing (contents C key s) peerId none).drop
        ((listing (contents C key s) peerId none).length - limit) := by
  have hsorted : (listing (contents C key s) peerId none).Pairwise
      (IdTable.Before StoredMessage.timestamp StoredMessage.id) :=
    IdTable.sort_before _ (nodup_contents.sublist (List.filter_sublist.map _))
  have hmem := mem_drop_iff hsorted (fun a b h => h.asymm) limit
  simp only [mem_listing, countP_listing] at hmem
  constructor
  · intro h
    exact IdTable.eq_of_before h.sorted (hsorted.sublist (List.drop_sublist _ _)) fun m =>
      (h.mem m).trans (hmem m).symm
  · rintro rfl
    exact ⟨hsorted.sublist (List.drop_sublist _ _), hmem⟩

/-- Messages that are no more than the limit are both the oldest and the latest of them. -/
theorem legible_iff (messages : List StoredMessage) :
    Legible formatTimestamp console callsign messages ↔
      if messages.take 20 = [] then console noMessages = .ok noMessages
      else List.Forall₂ (ReadsAs formatTimestamp console callsign) (messages.take 20)
        (messages.drop (messages.length - 20)) := by
  have hempty : messages.take 20 = [] ↔ messages = [] := by simp
  rw [Legible]
  simp only [hempty]
  by_cases hfew : messages.length ≤ 20
  · rw [if_pos hfew, List.take_of_length_le hfew, Nat.sub_eq_zero_of_le hfew, List.drop_zero,
      List.forall₂_same]
  · rw [if_neg hfew]

theorem latest_cmdHistory_iff (formatTimestamp : ℚ → Except PyError String)
    (console : String → Except PyError String) (t : MeshTransport) (hopen : s.assertOpen = .ok key)
    (hreadable : ∀ row ∈ s.db.messages.rows, row.peerId = peerId → Readable C key row) :
    (∃ shown, IsLatest (contents C key s) peerId 20 shown ∧ Shows formatTimestamp
        (callsignOf t peerId) (cmdHistory C formatTimestamp console t s (some peerId)) shown) ↔
      Legible formatTimestamp console (callsignOf t peerId)
        (listing (contents C key s) peerId none) := by
  have hshows := shows_cmdHistory formatTimestamp console t
    (getHistory_oldest hopen hreadable) ((listing (contents C key s) peerId none).drop
      ((listing (contents C key s) peerId none).length - 20)) (by
        rw [List.take_eq_nil_iff, List.drop_eq_nil_iff, ← List.length_eq_zero_iff]
        omega)
  rw [legible_iff, ← hshows]
  constructor
  · rintro ⟨shown, hlatest, hshown⟩
    rwa [(isLatest_iff C s key peerId 20 shown).mp hlatest] at hshown
  · intro hshown
    exact ⟨_, (isLatest_iff C s key peerId 20 _).mpr rfl, hshown⟩

/-- `history <peer_id>` prints the lines of the twenty messages that come last by time and id, in
this order, exactly when there are no more than twenty and the console leaves their lines alone, or
there are more and, one by one, it makes the lines of the last of them out of those of the first. -/
theorem shows_latest_iff (C : Suite) (formatTimestamp : ℚ → Except PyError String)
    (console : String → Except PyError String) (t : MeshTransport) (s : MessageStore) (key : Bytes)
    (hopen : s.assertOpen = .ok key) (line peerId : String)
    (hline : Repl.command line = some (.history (some peerId)))
    (hreadable : ∀ row ∈ s.db.messages.rows, row.peerId = peerId → Readable C key row) :
    (∃ shown screen, IsLatest (contents C key s) peerId 20 shown ∧
        handleCommand C formatTimestamp console t s line = some screen ∧
        Shows formatTimestamp (callsignOf t peerId) screen shown) ↔
      Legible formatTimestamp console (callsignOf t peerId)
        (listing (contents C key s) peerId none) := by
  rw [← latest_cmdHistory_iff formatTimestamp console t hopen hreadable, handleCommand, hline]
  constructor
  · rintro ⟨shown, screen, hlatest, hscreen, hshown⟩
    cases Option.some.inj hscreen
    exact ⟨shown, hlatest, hshown⟩
  · rintro ⟨shown, hlatest, hshown⟩
    exact ⟨shown, _, hlatest, rfl, hshown⟩

/-- After any calls, the rows of an open store decrypt and are what its log says. -/
theorem readable_run {R : StoreRuntime} (haead : C.AeadCorrect) (passphrase : Passphrase)
    (hderives : Derives R (normalizePassphrase passphrase)) (calls : List Call)
    (hopen : (Runs.run (MessageLog.step C R) (init passphrase .new) calls).isOpen = true) :
    ∃ key, (Runs.run (MessageLog.step C R) (init passphrase .new) calls).assertOpen = .ok key ∧
      (∀ row ∈ (Runs.run (MessageLog.step C R) (init passphrase .new) calls).db.messages.rows,
        Readable C key row) ∧
      ∀ m, m ∈ contents C key (Runs.run (MessageLog.step C R) (init passphrase .new) calls) ↔
        Survives (journal C R (init passphrase .new) calls) m := by
  obtain ⟨key, hfiled⟩ :=
    (holds_run haead hderives calls (holds_new (C := C) (R := R) passphrase)).filed hopen
  have hassert := assertOpen_filed hfiled
  rw [if_pos hopen] at hassert
  refine ⟨key.toList, hassert, hfiled.readable, fun m => ?_⟩
  rw [contents, hfiled.rows, mem_foldl_survivors]

end Results

section Stub

/-- A clock that stands still. -/
def noon : ℚ → Except PyError String := fun _ => .ok "12:00:00"

/-- There is a closing tag. -/
def closes : List Char → Bool
  | '[' :: '/' :: _ => true
  | _ :: rest => closes rest
  | [] => false

/-- A console that knows no opening tags. -/
def bareConsole (text : String) : Except PyError String :=
  if closes text.toList then .error .markupError else .ok text

/-- A store with these messages to bravo, one a second. -/
def storeOf (texts : List Bytes) : MessageStore :=
  Runs.run (MessageLog.step stub stubStore) (init (.text "alpha") .new)
    (.openFile (List.Vector.replicate 32 0) :: texts.mapIdx fun second text =>
      .saveMessage second stubNonce "bravo" "sent" text none)

/-- The letters from A to U. -/
def letters : List Bytes := (List.range 21).map fun n => [UInt8.ofNat (65 + n)]

def keyOf (s : MessageStore) : Bytes := s.assertOpen.toOption.getD []

theorem readable_storeOf (texts : List Bytes) (hopen : (storeOf texts).isOpen = true) :
    (storeOf texts).assertOpen = .ok (keyOf (storeOf texts)) ∧
      ∀ row ∈ (storeOf texts).db.messages.rows, Readable stub (keyOf (storeOf texts)) row := by
  obtain ⟨key, hkey, hreadable, _⟩ := readable_run (C := stub) (R := stubStore) stub_aeadCorrect
    (.text "alpha") (derives_stub _) _ hopen
  have hsame : keyOf (storeOf texts) = key := by
    rw [keyOf, storeOf, hkey]
    rfl
  rw [hsame]
  exact ⟨hkey, hreadable⟩

theorem readsAs_iff (formatTimestamp : ℚ → Except PyError String)
    (console : String → Except PyError String) (callsign : String) (a b : StoredMessage) :
    ReadsAs formatTimestamp console callsign a b ↔
      (messageLine formatTimestamp callsign a >>= console) = messageLine formatTimestamp callsign b ∧
        (messageLine formatTimestamp callsign b).isOk = true := by
  unfold ReadsAs
  cases messageLine formatTimestamp callsign b with
  | error e => simp [Except.isOk, Except.toBool]
  | ok text => simp [Except.isOk, Except.toBool]

instance (formatTimestamp : ℚ → Except PyError String) (console : String → Except PyError String)
    (callsign : String) (a b : StoredMessage) :
    Decidable (ReadsAs formatTimestamp console callsign a b) :=
  decidable_of_iff _ (readsAs_iff formatTimestamp console callsign a b).symm

instance (formatTimestamp : ℚ → Except PyError String) (console : String → Except PyError String)
    (callsign : String) (messages : List StoredMessage) :
    Decidable (Legible formatTimestamp console callsign messages) :=
  inferInstanceAs (Decidable (if messages = [] then _ else if messages.length ≤ 20 then _ else _))

theorem callsignOf_bravo {t : MeshTransport} (h : t.sessions = .empty) :
    callsignOf t "bravo" = "bravo" := by
  rw [callsignOf, h, OrderedDict.get?_empty]
  rfl

/-- With 21 messages the latest is not shown, and neither is a message with a closing tag. -/
theorem latest_left_out : ∃ t : MeshTransport, t.sessions = .empty ∧
    ∀ texts ∈ [letters, [encodeUtf8 "[/b] hi"]], ¬ ∃ shown screen,
      IsLatest (contents stub (keyOf (storeOf texts)) (storeOf texts)) "bravo" 20 shown ∧
      handleCommand stub noon bareConsole t (storeOf texts) "history bravo" = some screen ∧
      Shows noon (callsignOf t "bravo") screen shown := by
  have hillegible : ∀ texts ∈ [letters, [encodeUtf8 "[/b] hi"]], (storeOf texts).isOpen = true ∧
      ¬ Legible noon bareConsole "bravo"
        (listing (contents stub (keyOf (storeOf texts)) (storeOf texts)) "bravo" none) := by
    decide +kernel
  have hline : Repl.command "history bravo" = some (.history (some "bravo")) := by decide +kernel
  obtain ⟨n, hn, _⟩ := Honest.exists_started
  have hnone := hn.1.sessions
  refine ⟨n.transport, hnone, ?_⟩
  rintro texts htexts ⟨shown, screen, hlatest, hscreen, hshown⟩
  obtain ⟨hopen, hillegible⟩ := hillegible texts htexts
  obtain ⟨hkey, hreadable⟩ := readable_storeOf texts hopen
  have hiff := latest_cmdHistory_iff noon bareConsole n.transport hkey
    fun row hrow (_ : row.peerId = "bravo") => hreadable row hrow
  rw [handleCommand, hline] at hscreen
  cases Option.some.inj hscreen
  rw [callsignOf_bravo hnone] at hiff
  rw [callsignOf_bravo hnone] at hshown
  exact hillegible (hiff.mp ⟨shown, hlatest, hshown⟩)

/-- Twenty messages are shown. -/
theorem shows_latest_iff_twenty : ∃ (t : MeshTransport) (s : MessageStore) (key : Bytes),
    s.db.messages.rows.length = 20 ∧ ∃ shown screen, IsLatest (contents stub key s) "bravo" 20 shown ∧
      handleCommand stub noon bareConsole t s "history bravo" = some screen ∧
      Shows noon (callsignOf t "bravo") screen shown := by
  obtain ⟨n, hn, _⟩ := Honest.exists_started
  let texts := letters.take 20
  obtain ⟨hkey, hreadable⟩ := readable_storeOf texts (by decide +kernel)
  refine ⟨n.transport, storeOf texts, keyOf (storeOf texts), by decide +kernel, ?_⟩
  refine (shows_latest_iff stub noon bareConsole n.transport _ _ hkey "history bravo" "bravo"
    (by decide +kernel) fun row hrow _ => hreadable row hrow).mpr ?_
  rw [callsignOf_bravo hn.1.sessions]
  decide +kernel

end Stub

end Mesim.LatestHistory
