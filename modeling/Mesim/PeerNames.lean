import Mesim.QueueEntries
import Mesim.OriginatorTraces

/-!
The names of a peer.
A device id is a UUID, which can be written with and without its hyphens and in either
case. normalize_peer_id() puts the hyphens into a UUID without them and its letters into
lower case; a text of 36 characters it takes to be in normal form as it stands, and so one
with capitals stays another name, under which the queue finds nothing else.
-/
namespace Mesim.PeerNames

open Octets Crypto Packet RouterNetwork OriginatorSignatures ForwardQueue FifoQueue QueueEntries

section Forms

/-- The digits of a UUID, as its own text has them. -/
def UuidDigits (digits : List Char) : Prop :=
  digits.length = 32 ∧ ∀ c ∈ digits, c ∈ "0123456789abcdef".toList

/-- The digits, each in either case. -/
def PlainForm (digits : List Char) (text : String) : Prop :=
  text.toList.map Char.toLower = digits

/-- The digits in their groups, each in either case. -/
def HyphenatedForm (digits : List Char) (text : String) : Prop :=
  text.toList.map Char.toLower = (uuidText digits).toList

def Form (digits : List Char) (text : String) : Prop :=
  PlainForm digits text ∨ HyphenatedForm digits text

/-- Without hyphens, or without capitals. -/
def Normalizes (text : String) : Prop :=
  text.length = 32 ∨ ∀ c ∈ text.toList, c.toLower = c

variable {digits : List Char}

theorem mem_hexChars (c : Char) (h : c.toLower ∈ "0123456789abcdef".toList) : c ∈ hexChars := by
  have hlower : "0123456789abcdef".toList.all (fun d => hexChars.contains d) = true := by decide
  have hupper : ((List.range 26).map fun i => Char.ofNat (65 + i)).all (fun d =>
      !("0123456789abcdef".toList.contains d.toLower) || hexChars.contains d) = true := by decide
  by_cases hcapital : 'A'.val ≤ c.val ∧ c.val ≤ 'Z'.val
  · have hmem : c ∈ (List.range 26).map fun i => Char.ofNat (65 + i) := by
      have hlo : 65 ≤ c.toNat := hcapital.1
      have hhi : c.toNat ≤ 90 := hcapital.2
      refine List.mem_map.mpr ⟨c.toNat - 65, List.mem_range.mpr (by omega), ?_⟩
      rw [Nat.add_sub_cancel' hlo, Char.ofNat_toNat]
    have hall := List.all_eq_true.mp hupper c hmem
    rw [List.contains_iff_mem.mpr h] at hall
    exact List.contains_iff_mem.mp hall
  · have hsame : c.toLower = c := dif_neg hcapital
    rw [hsame] at h
    exact List.contains_iff_mem.mp (List.all_eq_true.mp hlower c h)

theorem toLower_digit (c : Char) (h : c ∈ '-' :: "0123456789abcdef".toList) : c.toLower = c := by
  have hall : ('-' :: "0123456789abcdef".toList).all (fun c => c.toLower = c) = true := by decide
  exact of_decide_eq_true (List.all_eq_true.mp hall c h)

theorem toLower_uuidText (hdigits : UuidDigits digits) :
    (uuidText digits).toList.map Char.toLower = (uuidText digits).toList := by
  conv => rhs; rw [← List.map_id (uuidText digits).toList]
  refine List.map_congr_left fun c hc => toLower_digit c ?_
  rcases mem_uuidText hc with rfl | hdigit
  · exact List.mem_cons_self
  · exact List.mem_cons_of_mem '-' (hdigits.2 c hdigit)

theorem PlainForm.length (hdigits : UuidDigits digits) {text : String} (h : PlainForm digits text) :
    text.length = 32 := by
  rw [← String.length_toList, ← List.length_map Char.toLower, h, hdigits.1]

theorem HyphenatedForm.length (hdigits : UuidDigits digits) {text : String}
    (h : HyphenatedForm digits text) : text.length = 36 := by
  rw [← String.length_toList, ← List.length_map Char.toLower, h, length_uuidText hdigits.1]

theorem PlainForm.normalizePeerId (hdigits : UuidDigits digits) {text : String}
    (h : PlainForm digits text) : normalizePeerId text = uuidText digits := by
  have hlen := h.length hdigits
  have hhex : text.toList.all (fun c => hexChars.contains c) = true := by
    refine List.all_eq_true.mpr fun c hc => List.contains_iff_mem.mpr (mem_hexChars c ?_)
    apply hdigits.2
    rw [← h]
    exact List.mem_map_of_mem hc
  have hlast : (digits.drop 20).take 12 = digits.drop 20 := by
    apply List.take_of_length_le
    rw [List.length_drop, hdigits.1]
  rw [ForwardQueue.normalizePeerId, if_neg (by omega), if_pos ⟨hlen, hhex⟩, h]
  simp only [hlast]
  rfl

theorem HyphenatedForm.normalizePeerId (hdigits : UuidDigits digits) {text : String}
    (h : HyphenatedForm digits text) : normalizePeerId text = text :=
  if_pos (h.length hdigits)

/-- Among the hyphenated forms only the one without capitals is the device id. -/
theorem HyphenatedForm.eq_iff (hdigits : UuidDigits digits) {text : String}
    (h : HyphenatedForm digits text) : text = uuidText digits ↔ Normalizes text := by
  constructor
  · rintro rfl
    refine Or.inr fun c hc => ?_
    exact List.map_inj_left.mp ((toLower_uuidText hdigits).trans (List.map_id _).symm) c hc
  · rintro (hlen | hlower)
    · rw [h.length hdigits] at hlen
      contradiction
    · apply String.toList_injective
      rw [← h]
      conv => lhs; rw [← List.map_id text.toList]
      exact List.map_congr_left fun c hc => (hlower c hc).symm

theorem normalizePeerId_form_iff (hdigits : UuidDigits digits) {text : String}
    (h : Form digits text) : normalizePeerId text = uuidText digits ↔ Normalizes text := by
  rcases h with hplain | hhyphens
  · exact iff_of_true (hplain.normalizePeerId hdigits) (Or.inl (hplain.length hdigits))
  · rw [hhyphens.normalizePeerId hdigits, hhyphens.eq_iff hdigits]

/-- Two forms share a queue when they are the same text or both normalize. -/
theorem normalizePeerId_forms_iff (hdigits : UuidDigits digits) {a b : String} (ha : Form digits a)
    (hb : Form digits b) :
    normalizePeerId a = normalizePeerId b ↔ a = b ∨ Normalizes a ∧ Normalizes b := by
  have hself : ∀ {text}, Form digits text → ¬ Normalizes text → normalizePeerId text = text := by
    rintro text (hplain | hhyphens) hnot
    · exact absurd (Or.inl (hplain.length hdigits)) hnot
    · exact hhyphens.normalizePeerId hdigits
  have hiffa := normalizePeerId_form_iff hdigits ha
  have hiffb := normalizePeerId_form_iff hdigits hb
  constructor
  · intro heq
    by_cases hna : Normalizes a
    · exact Or.inr ⟨hna, hiffb.mp (heq.symm.trans (hiffa.mpr hna))⟩
    · have hnb : ¬ Normalizes b := fun hnb => hna (hiffa.mp (heq.trans (hiffb.mpr hnb)))
      rw [hself ha hna, hself hb hnb] at heq
      exact Or.inl heq
  · rintro (rfl | ⟨hna, hnb⟩)
    · rfl
    · rw [hiffa.mpr hna, hiffb.mpr hnb]

/-- The id on the wire has no hyphens, and gets them back. -/
theorem normalizePeerId_wire (hdigits : UuidDigits digits) : ∃ raw text,
    senderIdBytes (uuidText digits) = .ok raw ∧ deviceIdFromBytes raw.toList = .ok text ∧
      normalizePeerId text = uuidText digits := by
  have hid : HexId (uuidText digits) := hexId_of_uuidText ⟨digits, hdigits.1, hdigits.2, rfl⟩
  obtain ⟨raw, hraw, hbytes⟩ := senderIdBytes_hex hid
  refine ⟨raw, hexId (uuidText digits), hraw, ?_, ?_⟩
  · rw [hbytes]
    exact deviceIdFromBytes_hex hid
  · apply PlainForm.normalizePeerId hdigits
    rw [PlainForm, hexId, String.toList_ofList, hexDigits_uuidText digits hdigits.2]
    conv => rhs; rw [← List.map_id digits]
    exact List.map_congr_left fun c hc => toLower_digit c (List.mem_cons_of_mem '-' (hdigits.2 c hc))

end Forms

section Results

/-- A text of a UUID is mapped to its device id exactly when it normalizes, normal forms stay as
they are, and the id on the wire is mapped back. A message that was filed under one text is returned
under another exactly when they are the same or both normalize. -/
theorem one_normal_form_iff (C : Suite) (haead : C.AeadCorrect) (digits : List Char)
    (hdigits : UuidDigits digits) :
    (∀ text, Form digits text → (normalizePeerId text = uuidText digits ↔ Normalizes text)) ∧
    (∀ text, normalizePeerId (normalizePeerId text) = normalizePeerId text) ∧
    (∃ raw text, senderIdBytes (uuidText digits) = .ok raw ∧
      deviceIdFromBytes raw.toList = .ok text ∧ normalizePeerId text = uuidText digits) ∧
    ∀ (s : Stay C) (text : String) (now : ℚ), Form digits s.peerId → Form digits text →
      s.last.isOpen = true → now < s.filedAt + ttlSeconds →
      ∃ pending, s.last.getPending C now text = .ok pending ∧
        ((∃ m ∈ pending, m.id = s.id ∧ m.payload = s.payload) ↔
          s.peerId = text ∨ Normalizes s.peerId ∧ Normalizes text) := by
  refine ⟨fun text h => normalizePeerId_form_iff hdigits h, normalizePeerId_idem,
    normalizePeerId_wire hdigits, fun s text now hfiled htext hopen hlive => ?_⟩
  obtain ⟨pending, hpending, hiff⟩ := s.pending haead hopen now hlive text
  refine ⟨pending, hpending, hiff.trans ?_⟩
  exact normalizePeerId_forms_iff hdigits hfiled htext

end Results

section Stub

def someDigits : List Char := "00112233445566778899aabbccddeeff".toList

theorem uuidDigits_someDigits : UuidDigits someDigits := by
  have hall : someDigits.all (fun c => "0123456789abcdef".toList.contains c) = true := by
    decide +kernel
  refine ⟨by decide +kernel, fun c hc => ?_⟩
  exact List.contains_iff_mem.mp (List.all_eq_true.mp hall c hc)

/-- A message for this name in a new queue, not yet sent. -/
def stayOf (name : String)
    (h : (FifoQueue.enqueueAt stub ⟨⟨List.Vector.replicate 32 0⟩, true, .empty⟩ 1 1
      (List.Vector.replicate 12 0) name [104, 105]).1 = .ok 1) : Stay stub where
  queue := ⟨⟨List.Vector.replicate 32 0⟩, true, .empty⟩
  new := rfl
  before := []
  sizeNow := 1
  filedAt := 1
  nonce := List.Vector.replicate 12 0
  peerId := name
  payload := [104, 105]
  id := 1
  filed := h
  later := [.purgeExpired 5]
  kept := by simp
  live now hpurge := by
    have hnow : now = 5 := by simpa using hpurge
    rw [hnow]
    decide +kernel

/-- What is filed under a hyphenated form with capitals is not found under the device id. -/
theorem capitals_unfound : ∃ (digits : List Char) (s : Stay stub), UuidDigits digits ∧
    Form digits s.peerId ∧ normalizePeerId s.peerId ≠ uuidText digits ∧
    s.last.getPending stub 10 (uuidText digits) = .ok [] ∧ 10 < s.filedAt + ttlSeconds := by
  refine ⟨someDigits, stayOf "00112233-4455-6677-8899-AABBCCDDEEFF" (by decide +kernel),
    uuidDigits_someDigits, Or.inr ?_, by decide +kernel, by decide +kernel, by decide +kernel⟩
  show List.map _ _ = _
  decide +kernel

/-- What is filed without hyphens and with capitals is. -/
theorem one_normal_form_iff_plain : ∃ (digits : List Char) (s : Stay stub),
    s.peerId = "00112233445566778899AABBCCDDEEFF" ∧
    normalizePeerId s.peerId = uuidText digits ∧
    ∃ pending, s.last.getPending stub 10 (uuidText digits) = .ok pending ∧
      ∃ m ∈ pending, m.id = 1 ∧ m.payload = [104, 105] := by
  let s := stayOf "00112233445566778899AABBCCDDEEFF" (by decide +kernel)
  have hplain : PlainForm someDigits s.peerId := by
    show List.map _ _ = _
    decide +kernel
  have hhyphens : HyphenatedForm someDigits (uuidText someDigits) :=
    toLower_uuidText uuidDigits_someDigits
  obtain ⟨hform, _, _, hfound⟩ :=
    one_normal_form_iff stub stub_aeadCorrect someDigits uuidDigits_someDigits
  obtain ⟨pending, hpending, hiff⟩ := hfound s (uuidText someDigits) 10 (Or.inl hplain)
    (Or.inr hhyphens) (by decide +kernel) (by decide +kernel)
  refine ⟨someDigits, s, rfl, (hform _ (Or.inl hplain)).mpr ?_, pending, hpending, hiff.mpr ?_⟩
  · exact Or.inl (hplain.length uuidDigits_someDigits)
  · refine Or.inr ⟨Or.inl (hplain.length uuidDigits_someDigits), ?_⟩
    exact (hhyphens.eq_iff uuidDigits_someDigits).mp rfl

end Stub

end Mesim.PeerNames
