import Mesim.MessageLog
import Mesim.Paging

/-!
Reading a history page by page.
get_history() cuts the oldest rows, and the next page lies below the smallest id of
the page before. So a newer message is only reached when it has the smaller id. SQLite
takes a page size of 64 bits and hands out ids of 64 bits.
-/
namespace Mesim.HistoryPages

open Octets Crypto IdentityFile Duress MessageStore MessageLog Paging

section Pages

variable (C : Suite)

def messageId (m : StoredMessage) : ℤ := m.id

/-- get_history() called again and again, with the smallest id of the page before. -/
def ReadsHistory (s : MessageStore) (peerId : String) (limit : ℕ)
    (pages : List (List StoredMessage)) : Prop :=
  Reads messageId (fun beforeId page => s.getHistory C peerId limit beforeId = .ok page) none pages

variable {C} {R : StoreRuntime} {s : MessageStore} {key : Fixed 32} {messages : List StoredMessage}

/-- A bound on the ids takes entries out of the listing and leaves the order. -/
theorem listing_bound (hids : (messages.map StoredMessage.id).Nodup) (peerId : String)
    (beforeId : Option ℤ) : listing messages peerId beforeId =
      (listing messages peerId none).filter (isBelow messageId beforeId) := by
  have hsorted : ∀ bound, (listing messages peerId bound).Pairwise
      (IdTable.Before StoredMessage.timestamp StoredMessage.id) :=
    fun bound => IdTable.sort_before _ (hids.sublist (List.filter_sublist.map _))
  refine IdTable.eq_of_before (hsorted _) ((hsorted _).filter _) fun m => ?_
  simp only [listing, List.mem_insertionSort, List.mem_filter, Bool.and_eq_true, Option.all_none,
    and_true, and_assoc]
  rfl

theorem id_fits (h : Filed C R s key messages) (hids : s.db.messages.nextId ≤ 2 ^ 63) :
    ∀ m ∈ messages, Fits (messageId m) := by
  intro m hm
  rw [← h.rows] at hm
  obtain ⟨row, hrow, rfl⟩ := List.mem_map.mp hm
  have hbelow := s.db.messages.below row hrow
  simp only [messageId, messageOf]
  exact ⟨by omega, by omega⟩

/-- Where SQLite has room for the page size and the ids, a call gives one page of the listing. -/
theorem answers_iff (h : Filed C R s key messages) (hopen : s.isOpen = true)
    (hids : s.db.messages.nextId ≤ 2 ^ 63) (peerId : String) {limit : ℕ} (hlimit : limit < 2 ^ 63)
    (beforeId : Option ℤ) (p : List StoredMessage)
    (hbound : IsBound messageId (listing messages peerId none) beforeId) :
    s.getHistory C peerId limit beforeId = .ok p ↔
      p = page messageId limit (listing messages peerId none) beforeId := by
  have hfits : ∀ bound, beforeId = some bound → Fits bound := by
    intro bound hsome
    obtain ⟨m, hm, rfl⟩ := hbound bound hsome
    exact id_fits h hids m (List.mem_filter.mp ((List.mem_insertionSort _).mp hm)).1
  rw [getHistory_open h hopen peerId ⟨by omega, by omega⟩ hfits, limited, if_neg (by omega), Int.toNat_natCast, Except.ok.injEq, page,
    listing_bound h.nodup_ids]
  exact eq_comm

/-- A page size that SQLite has no room for gives no page at all. -/
theorem not_readsHistory (h : Filed C R s key messages) (hopen : s.isOpen = true) (peerId : String)
    {limit : ℕ} (hlarge : 2 ^ 63 ≤ limit) (pages : List (List StoredMessage)) :
    ¬ ReadsHistory C s peerId limit pages := by
  have hraised : s.getHistory C peerId limit none = .error tooLarge :=
    getHistory_tooLarge h hopen peerId (Or.inl fun hfits => by
      have hlt := hfits.2
      omega)
  intro hreads
  cases hreads with
  | done hpage => cases hraised.symm.trans hpage
  | more hpage => cases hraised.symm.trans hpage

/-- The pages end, and give every message once exactly when SQLite has room for the page size and the
blocks of the listing descend. -/
theorem readsHistory_iff (h : Filed C R s key messages) (hopen : s.isOpen = true)
    (hids : s.db.messages.nextId ≤ 2 ^ 63) (peerId : String) (limit : ℕ) (hlimit : 1 ≤ limit) :
    (∃ pages, ReadsHistory C s peerId limit pages ∧
        pages.flatten.Perm (listing messages peerId none)) ↔
      limit < 2 ^ 63 ∧ Descends messageId limit (listing messages peerId none) := by
  by_cases hroom : limit < 2 ^ 63
  swap
  · refine iff_of_false ?_ fun hboth => hroom hboth.1
    rintro ⟨pages, hreads, _⟩
    exact not_readsHistory h hopen peerId (Nat.not_lt.mp hroom) pages hreads
  have hanswers := answers_iff h hopen hids peerId hroom
  have hall := isBelow_none messageId (listing messages peerId none)
  rw [and_iff_right hroom]
  constructor
  · rintro ⟨pages, hreads, hperm⟩
    have hiff := reads_perm_iff hanswers hlimit hreads isBound_none
    rw [hall] at hiff
    exact hiff.mp hperm
  · intro hdescends
    obtain ⟨pages, hreads⟩ := reads_exists hanswers isBound_none
    have hiff := reads_perm_iff hanswers hlimit hreads isBound_none
    rw [hall] at hiff
    exact ⟨pages, hreads, hiff.mpr hdescends⟩

/-- Reading a peer's history page by page gives every message once exactly when SQLite has room for
the page size and, in the order of time and id, the ids of each block of `limit` messages lie above
those of every later block. -/
theorem pages_complete_iff (C : Suite) (R : StoreRuntime) (haead : C.AeadCorrect)
    (passphrase : Passphrase) (hderives : Derives R (normalizePassphrase passphrase))
    (calls : List Call) (hopen : (Runs.run (step C R) (init passphrase .new) calls).isOpen = true)
    (hids : (Runs.run (step C R) (init passphrase .new) calls).db.messages.nextId ≤ 2 ^ 63)
    (peerId : String) (limit : ℕ) (hlimit : 1 ≤ limit) :
    ∃ all, IsHistory (journal C R (init passphrase .new) calls) peerId none all ∧
      ((∃ pages, ReadsHistory C (Runs.run (step C R) (init passphrase .new) calls) peerId limit
          pages ∧ pages.flatten.Perm all) ↔ limit < 2 ^ 63 ∧ Descends messageId limit all) := by
  obtain ⟨key, hfiled⟩ :=
    (holds_run haead hderives calls (holds_new (C := C) (R := R) passphrase)).filed hopen
  exact ⟨_, isHistory_listing (mem_foldl_survivors _) hfiled.nodup_ids peerId none,
    readsHistory_iff hfiled hopen hids peerId limit hlimit⟩

/-- Messages filed in the order of their times are all reached only when one page holds them. -/
theorem pages_in_order (h : Filed C R s key messages) (hopen : s.isOpen = true)
    (hids : s.db.messages.nextId ≤ 2 ^ 63) (peerId : String) (limit : ℕ) (hlimit : 1 ≤ limit)
    (hroom : limit < 2 ^ 63) (hordered : (listing messages peerId none).Pairwise fun a b => a.id < b.id) :
    (∃ pages, ReadsHistory C s peerId limit pages ∧
        pages.flatten.Perm (listing messages peerId none)) ↔
      (listing messages peerId none).length ≤ limit := by
  rw [readsHistory_iff h hopen hids peerId limit hlimit, and_iff_right hroom]
  exact descends_increasing hlimit (hordered.imp fun hlt => Int.ofNat_lt.mpr hlt)

end Pages

section Stub

/-- Two messages, one after the other. -/
def twoMessages : List Call :=
  [.openFile (List.Vector.replicate 32 0), .saveMessage 1 stubNonce "bravo" "sent" [49] none,
    .saveMessage 2 stubNonce "bravo" "recv" [50] none]

theorem journal_twoMessages : journal stub stubStore (init (.text "alpha") .new) twoMessages =
    [.saved 1 "bravo" "sent" [49] 1, .saved 2 "bravo" "recv" [50] 2] := by decide +kernel

/-- Reading one message at a time, the second page lies below the first message. -/
theorem second_page_empty : ¬ ∀ (calls : List Call) (peerId : String) (limit : ℕ), 1 ≤ limit →
    (Runs.run (step stub stubStore) (init (.text "alpha") .new) calls).isOpen = true →
    (Runs.run (step stub stubStore) (init (.text "alpha") .new) calls).db.messages.nextId ≤ 2 ^ 63 →
    ∀ all, IsHistory (journal stub stubStore (init (.text "alpha") .new) calls) peerId none all →
      ∃ pages, ReadsHistory stub (Runs.run (step stub stubStore) (init (.text "alpha") .new) calls)
        peerId limit pages ∧ pages.flatten.Perm all := by
  intro h
  let filed : List StoredMessage :=
    [⟨1, "bravo", "sent", [49], 1, false⟩, ⟨2, "bravo", "recv", [50], 2, false⟩]
  have hopen : (Runs.run (step stub stubStore) (init (.text "alpha") .new) twoMessages).isOpen =
      true := by decide +kernel
  have hids : (Runs.run (step stub stubStore)
      (init (.text "alpha") .new) twoMessages).db.messages.nextId ≤ 2 ^ 63 := by decide +kernel
  obtain ⟨key, hfiled⟩ := (holds_run (R := stubStore) stub_aeadCorrect (derives_stub _) twoMessages
    (holds_new (.text "alpha"))).filed hopen
  rw [journal_twoMessages] at hfiled
  have hall := isHistory_listing (mem_foldl_survivors _) hfiled.nodup_ids "bravo" none
  have hlisting : listing ([LogEvent.saved 1 "bravo" "sent" [49] 1,
      .saved 2 "bravo" "recv" [50] 2].foldl survivors []) "bravo" none = filed := by decide +kernel
  have honly := pages_in_order hfiled hopen hids "bravo" 1 le_rfl (by decide)
    (by rw [hlisting]; decide)
  rw [hlisting] at hall honly
  rw [← journal_twoMessages] at hall
  exact absurd (honly.mp (h twoMessages "bravo" 1 le_rfl hopen hids filed hall)) (by decide)

theorem pages_complete_iff_two :
    ∃ all, IsHistory (journal stub stubStore (init (.text "alpha") .new) twoMessages) "bravo" none all ∧
      ((∃ pages, ReadsHistory stub
          (Runs.run (step stub stubStore) (init (.text "alpha") .new) twoMessages) "bravo" 1 pages ∧
        pages.flatten.Perm all) ↔ 1 < 2 ^ 63 ∧ Descends messageId 1 all) :=
  pages_complete_iff stub stubStore stub_aeadCorrect (.text "alpha") (derives_stub _) twoMessages
    (by decide +kernel) (by decide +kernel) "bravo" 1 le_rfl

end Stub

end Mesim.HistoryPages
