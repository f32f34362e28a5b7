import Mesim.LatestHistory

/-!
What GET /messages returns.
The endpoint caps its limit from above and hands it to the store, and SQLite takes a
negative LIMIT for none. So the number of messages is bounded exactly when the limit is
not negative, or cannot be bound, or the peer has no more than 500.
-/
namespace Mesim.MessagePages

open Octets TextCodec Base64 Crypto MessageStore MessageLog PeerHistory LatestHistory

section Model

variable (C : Suite)

/-- An object of the response. -/
structure HistoryItem where
  id : ℕ
  direction : String
  plaintext : String
  encoding : String
  timestamp : ℚ
  delivered : Bool
  deriving DecidableEq

def historyItem (msg : StoredMessage) : HistoryItem :=
  let (text, encoding) :=
    match decodeUtf8 msg.plaintext with
    | some text => (text, "utf-8")
    | none => (b64encode msg.plaintext, "base64")
  { id := msg.id
    direction := msg.direction
    plaintext := text
    encoding := encoding
    timestamp := msg.timestamp
    delivered := msg.delivered }

/-- GET /messages/{peer_id}; the limit of the query is 100 if it has none. -/
def getMessages (s : MessageStore) (peerId : String) (query : Option ℤ) :
    Except PyError (List HistoryItem) := do
  let limit := min (query.getD 100) 500
  let history ← s.getHistory C peerId limit none
  return history.map historyItem

/-- No response has more messages than the limit, nor more than 500. -/
def Bounded (s : MessageStore) (peerId : String) (query : Option ℤ) : Prop :=
  ∀ items, getMessages C s peerId query = .ok items →
    (0 ≤ query.getD 100 → (items.length : ℤ) ≤ min (query.getD 100) 500) ∧ items.length ≤ 500

/-- How many messages the store has under this name. -/
def stored (s : MessageStore) (peerId : String) : ℕ :=
  s.db.messages.rows.countP fun row => row.peerId = peerId

end Model

section Rows

variable {C : Suite} {s : MessageStore} {key : Bytes} {peerId : String} {limit : ℤ}

/-- Rows are read all or none. -/
theorem readRows_ok {rows : List Row} {messages : List StoredMessage}
    (h : readRows C key rows = .ok messages) :
    messages.length = rows.length ∧ ∀ row ∈ rows, Readable C key row := by
  induction rows generalizing messages with
  | nil =>
    cases h
    exact ⟨rfl, by simp⟩
  | cons row rest ih =>
    rw [readRows] at h
    obtain ⟨plaintext, hplain, h⟩ := bind_ok_iff.mp h
    obtain ⟨later, hlater, h⟩ := bind_ok_iff.mp h
    cases h
    obtain ⟨hlength, hreadable⟩ := ih hlater
    refine ⟨by rw [List.length_cons, List.length_cons, hlength], fun other hother => ?_⟩
    rcases List.mem_cons.mp hother with rfl | hother
    · exact ⟨plaintext, hplain⟩
    · exact hreadable other hother

theorem length_select : (s.db.messages.select Row.timestamp (isListed peerId none)).length =
    stored s peerId := by
  rw [IdTable.select, List.length_insertionSort, stored, List.countP_eq_length_filter]
  exact congrArg List.length (List.filter_congr fun row _ => Bool.and_true _)

theorem length_limited {α : Type} (limit : ℤ) (rows : List α) :
    ((limited limit rows).length : ℤ) =
      if limit < 0 then (rows.length : ℤ) else min limit rows.length := by
  rw [limited]
  split
  · rfl
  · rw [List.length_take]
    omega

/-- What there is a response for, and how long it is. -/
theorem getMessages_ok {query : Option ℤ} {items : List HistoryItem}
    (h : getMessages C s peerId query = .ok items) :
    ∃ key, s.assertOpen = .ok key ∧ -2 ^ 63 ≤ query.getD 100 ∧
      items.length = (limited (min (query.getD 100) 500)
        (s.db.messages.select Row.timestamp (isListed peerId none))).length ∧
      ∀ row ∈ limited (min (query.getD 100) 500)
        (s.db.messages.select Row.timestamp (isListed peerId none)), Readable C key row := by
  rw [getMessages] at h
  obtain ⟨history, hhistory, h⟩ := bind_ok_iff.mp h
  cases h
  rw [getHistory] at hhistory
  obtain ⟨key, hopen, hhistory⟩ := bind_ok_iff.mp hhistory
  obtain ⟨beforeId, hbound, hhistory⟩ := bind_ok_iff.mp hhistory
  cases hbound
  obtain ⟨limit, hlimit, hread⟩ := bind_ok_iff.mp hhistory
  by_cases hfits : Fits (min (query.getD 100) 500)
  · rw [bindInt_ok hfits] at hlimit
    cases hlimit
    obtain ⟨hlength, hreadable⟩ := readRows_ok hread
    have hlow := hfits.1
    exact ⟨key, hopen, by omega, by rw [List.length_map, hlength], hreadable⟩
  · rw [bindInt_error hfits] at hlimit
    cases hlimit

/-- A limit below zero that SQLite takes gives all of the peer's messages. -/
theorem getMessages_negative {query : Option ℤ} (hopen : s.assertOpen = .ok key)
    (hreadable : ∀ row ∈ s.db.messages.rows, row.peerId = peerId → Readable C key row)
    (hfits : -2 ^ 63 ≤ query.getD 100) (hnegative : query.getD 100 < 0) :
    ∃ items, getMessages C s peerId query = .ok items ∧ items.length = stored s peerId := by
  have hlimit : min (query.getD 100) 500 = query.getD 100 := by omega
  have hbind : Fits (query.getD 100) := ⟨hfits, by omega⟩
  have hhistory : s.getHistory C peerId (query.getD 100) none =
      .ok (listing (contents C key s) peerId none) := by
    have hlisted : s.getHistory C peerId (query.getD 100) none = _ :=
      getHistory_readable hopen peerId hbind (by simp) fun row hrow hlisted =>
        hreadable row hrow (by simpa [isListed] using hlisted)
    rwa [limited, if_pos hnegative] at hlisted
  refine ⟨(listing (contents C key s) peerId none).map historyItem, ?_, ?_⟩
  · rw [getMessages, hlimit, hhistory]
    rfl
  · rw [List.length_map, length_listing]
    rfl

/-- In the thread that opened the store it is one of the two readers of a history. -/
theorem getMessages_reader (system : System) (peerId : String) (limit : ℤ) :
    getMessages C system.store peerId (some limit) =
      (history C system (.getMessages .opener limit) peerId).map (List.map historyItem) := by
  simp only [getMessages, history, Reader.limit, Reader.thread, reduceCtorEq, if_false, getHistory,
    Option.getD_some]
  cases system.store.assertOpen with
  | error e => rfl
  | ok key =>
    simp only [ok_bind]
    cases bindInt (min limit 500) with
    | error e => rfl
    | ok limit =>
      simp only [bindBound, ok_bind]
      cases readRows C key (limited limit
        (system.store.db.messages.select Row.timestamp (isListed peerId none))) <;> rfl

end Rows

section Results

variable {C : Suite} {s : MessageStore} {peerId : String} {query : Option ℤ}

/-- A negative limit and more than 500 messages that decrypt. -/
theorem not_bounded {key : Bytes} (hopen : s.assertOpen = .ok key)
    (hreadable : ∀ row ∈ s.db.messages.rows, row.peerId = peerId → Readable C key row)
    (hfits : -2 ^ 63 ≤ query.getD 100) (hnegative : query.getD 100 < 0)
    (hmany : 500 < stored s peerId) : ¬ Bounded C s peerId query := by
  intro hbounded
  obtain ⟨items, hitems, hlength⟩ := getMessages_negative hopen hreadable hfits hnegative
  have hfew := (hbounded items hitems).2
  omega

/-- The response is bounded exactly when the limit is not negative, or too small to be bound, or
the peer has no more than 500 messages, or the store is closed or some message of the peer does
not decrypt, in which case there is no response. -/
theorem get_messages_bounded_iff (C : Suite) (s : MessageStore) (peerId : String)
    (query : Option ℤ) : Bounded C s peerId query ↔
      ∀ key, s.assertOpen = .ok key →
        (∀ row ∈ s.db.messages.rows, row.peerId = peerId → Readable C key row) →
        0 ≤ query.getD 100 ∨ query.getD 100 < -2 ^ 63 ∨ stored s peerId ≤ 500 := by
  constructor
  · intro hbounded key hopen hreadable
    by_contra hneither
    exact not_bounded hopen hreadable (by omega) (by omega) (by omega) hbounded
  · intro hcondition items hitems
    obtain ⟨key, hopen, hfits, hlength, hreadable⟩ := getMessages_ok hitems
    have hlimited := length_limited (min (query.getD 100) 500)
      (s.db.messages.select Row.timestamp (isListed peerId none))
    rw [← hlength, length_select] at hlimited
    by_cases hnegative : query.getD 100 < 0
    · have hall : ∀ row ∈ s.db.messages.rows, row.peerId = peerId → Readable C key row := by
        intro row hrow hpeer
        apply hreadable row
        rw [limited, if_pos (by omega), IdTable.mem_select]
        exact ⟨hrow, by simpa [isListed] using hpeer⟩
      have hfew := hcondition key hopen hall
      rw [if_pos (by omega)] at hlimited
      exact ⟨by omega, by omega⟩
    · rw [if_neg (by omega)] at hlimited
      exact ⟨by omega, by omega⟩

end Results

section Stub

/-- So many messages to the same peer, one a second. -/
def messagesTo (peerId : String) (n : ℕ) : List Call :=
  .openFile (List.Vector.replicate 32 0) :: (List.range n).map fun (second : ℕ) =>
    .saveMessage second stubNonce peerId "sent" [] none

theorem filed_messagesTo (peerId : String) (n : ℕ) : ∃ key messages,
    Filed stub stubStore
      (Runs.run (MessageLog.step stub stubStore) (init (.text "alpha") .new) (messagesTo peerId n))
      key messages ∧
    (Runs.run (MessageLog.step stub stubStore) (init (.text "alpha") .new)
      (messagesTo peerId n)).isOpen = true ∧
    (messages.countP fun m => m.peerId = peerId) = n := by
  induction n with
  | zero =>
    obtain ⟨key, hfiled, _, hopen, _⟩ := openFile_blank (C := stub) (R := stubStore)
      (s := init (.text "alpha") .new) ⟨rfl, rfl, rfl, rfl⟩ (derives_stub _)
      (List.Vector.replicate 32 0)
    exact ⟨key, [], hfiled, hopen, rfl⟩
  | succ n ih =>
    obtain ⟨key, messages, hfiled, hopen, hcount⟩ := ih
    have hstep : messagesTo peerId (n + 1) =
        messagesTo peerId n ++ [.saveMessage n stubNonce peerId "sent" [] none] := by
      simp [messagesTo, List.range_succ]
    obtain ⟨table, hsaved, hfiled'⟩ := saveMessage_open stub_aeadCorrect hfiled hopen n stubNonce
      peerId "sent" [] none (.inl rfl)
    rw [hstep, Runs.run_concat, MessageLog.step, hsaved]
    refine ⟨key, _, hfiled', hopen, ?_⟩
    rw [survivors, List.countP_append, hcount, List.countP_singleton, if_pos (decide_eq_true rfl)]

/-- The 501 messages of a peer all come back for a limit of -1. -/
theorem negative_limit_unbounded : ¬ ∀ (calls : List Call) (peerId : String) (query : Option ℤ),
    Bounded stub (Runs.run (MessageLog.step stub stubStore) (init (.text "alpha") .new) calls)
      peerId query := by
  intro hall
  obtain ⟨key, messages, hfiled, hopen, hcount⟩ := filed_messagesTo "bravo" 501
  have hassert := assertOpen_filed hfiled
  rw [if_pos hopen] at hassert
  refine not_bounded hassert (fun row hrow _ => hfiled.readable row hrow) (by decide) (by decide) ?_
    (hall (messagesTo "bravo" 501) "bravo" (some (-1)))
  rw [← hfiled.rows, List.countP_map] at hcount
  have hstored : stored _ "bravo" = 501 := hcount
  omega

end Stub

end Mesim.MessagePages
