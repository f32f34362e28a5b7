import Mesim.Octets
import Mathlib.Data.List.Forall2

/-!
Text to bytes and back, in the three forms a wire format needs: strict UTF-8,
strict ASCII, and ASCII with undecodable bytes replaced by U+FFFD.
Strict codecs answer `none` where the text or the bytes are out of range.
-/
namespace TextCodec

open Octets

def encodeUtf8 (s : String) : Bytes := s.toByteArray.data.toList

def decodeUtf8 (b : Bytes) : Option String := String.fromUTF8? b.toByteArray

def IsAscii (s : String) : Prop := ∀ c ∈ s.toList, c.toNat < 128

instance (s : String) : Decidable (IsAscii s) := List.decidableBAll _ s.toList

def encodeAscii (s : String) : Option Bytes :=
  if IsAscii s then some (s.toList.map (fun c => UInt8.ofNat c.toNat)) else none

def AsciiBytes (b : Bytes) : Prop := ∀ x ∈ b, x.toNat < 128

instance (b : Bytes) : Decidable (AsciiBytes b) := List.decidableBAll _ b

def decodeAscii (b : Bytes) : Option String :=
  if AsciiBytes b then some (String.ofList (b.map (fun x => Char.ofNat x.toNat)))
  else none

def decodeAsciiReplace (b : Bytes) : String :=
  String.ofList (b.map (fun x => if x.toNat < 128 then Char.ofNat x.toNat else '\uFFFD'))

section Repr

def apostrophe : Char := Char.ofNat 39

def backslash : Char := Char.ofNat 92

def escapeChar (quote c : Char) : List Char :=
  if c = quote ∨ c = backslash then [backslash, c]
  else if c = '\n' then [backslash, 'n']
  else if c = '\r' then [backslash, 'r']
  else if c = '\t' then [backslash, 't']
  else if c.toNat < 32 ∨ c.toNat = 127 then
    [backslash, 'x', Nat.digitChar (c.toNat / 16), Nat.digitChar (c.toNat % 16)]
  else [c]

/-- Python's `repr` of a text whose characters beyond ASCII are printable. -/
def reprText (s : String) : String :=
  let quote := if apostrophe ∈ s.toList ∧ '"' ∉ s.toList then '"' else apostrophe
  String.ofList (quote :: s.toList.flatMap (escapeChar quote) ++ [quote])

end Repr

theorem toByteArray_toList (s : String) : (encodeUtf8 s).toByteArray = s.toByteArray := by
  apply ByteArray.ext
  rw [encodeUtf8, List.data_toByteArray]

theorem decodeUtf8_encodeUtf8 (s : String) : decodeUtf8 (encodeUtf8 s) = some s := by
  rw [decodeUtf8, toByteArray_toList, String.fromUTF8?]
  have hvalid : s.toByteArray.IsValidUTF8 := s.isValidUTF8
  simp [hvalid, String.fromUTF8]

theorem encodeUtf8_injective : Function.Injective encodeUtf8 := by
  intro a b h
  have hdecoded := congrArg decodeUtf8 h
  rw [decodeUtf8_encodeUtf8, decodeUtf8_encodeUtf8] at hdecoded
  exact Option.some.inj hdecoded

theorem encodeUtf8_decodeUtf8 (b : Bytes) (s : String) (h : decodeUtf8 b = some s) :
    encodeUtf8 s = b := by
  unfold decodeUtf8 String.fromUTF8? at h
  split at h
  · rw [← Option.some.inj h, encodeUtf8]
    simp only [String.fromUTF8, List.data_toByteArray]
  · cases h

theorem encodeUtf8_eq (s : String) : encodeUtf8 s = s.toList.flatMap String.utf8EncodeChar := by
  rw [encodeUtf8, ← String.utf8Encode_toList, List.utf8Encode, List.data_toByteArray]

theorem encodeUtf8_ascii (s : String) (h : IsAscii s) :
    encodeUtf8 s = s.toList.map fun c => UInt8.ofNat c.toNat := by
  rw [encodeUtf8_eq, List.map_eq_flatMap]
  refine List.flatMap_congr fun c hc => ?_
  have hlow : c.val.toNat ≤ 127 := Nat.le_of_lt_succ (h c hc)
  rw [String.utf8EncodeChar]
  exact if_pos hlow

/-- A character's last byte is zero for NUL alone. -/
theorem getLast?_utf8EncodeChar (c : Char) :
    (String.utf8EncodeChar c).getLast? = some 0 ↔ c = '\x00' := by
  have hlast : ∀ n : ℕ, UInt8.ofNat (n % 64 + 128) ≠ 0 := by
    intro n hzero
    have := congrArg UInt8.toNat hzero
    rw [UInt8.toNat_ofNat', UInt8.toNat_zero] at this
    omega
  constructor
  · intro h
    unfold String.utf8EncodeChar at h
    dsimp only at h
    split at h
    · rename_i hlow
      rw [List.getLast?_singleton] at h
      have hzero := congrArg UInt8.toNat (Option.some.inj h)
      rw [UInt8.toNat_ofNat', UInt8.toNat_zero] at hzero
      apply Char.toNat_inj.mp
      show c.val.toNat = 0
      omega
    · split at h
      · exact (hlast _ (Option.some.inj h)).elim
      · split at h
        · exact (hlast _ (Option.some.inj h)).elim
        · exact (hlast _ (Option.some.inj h)).elim
  · rintro rfl
    decide

theorem getLast?_encodeUtf8 (s : String) :
    (encodeUtf8 s).getLast? = some 0 ↔ s.toList.getLast? = some '\x00' := by
  rw [encodeUtf8_eq]
  cases hs : s.toList.eq_nil_or_concat' with
  | inl hnil =>
    rw [hnil]
    simp
  | inr hconcat =>
    obtain ⟨init, c, hc⟩ := hconcat
    have hne : String.utf8EncodeChar c ≠ [] := String.utf8EncodeChar_ne_nil
    rw [hc, List.flatMap_append, List.flatMap_singleton, List.getLast?_append_of_ne_nil _ hne,
      getLast?_utf8EncodeChar, List.getLast?_concat, Option.some.injEq]

theorem char_ofNat_toNat (c : Char) : Char.ofNat c.toNat = c := by
  simp

theorem ascii_byte_roundtrip (c : Char) (h : c.toNat < 128) :
    Char.ofNat (UInt8.ofNat c.toNat).toNat = c := by
  rw [UInt8.toNat_ofNat', Nat.mod_eq_of_lt (by omega), char_ofNat_toNat]

theorem ascii_char_roundtrip (x : UInt8) (h : x.toNat < 128) :
    (Char.ofNat x.toNat).toNat = x.toNat := by
  have hvalid : x.toNat.isValidChar := Or.inl (by omega)
  rw [Char.ofNat, dif_pos hvalid]
  rfl

theorem decodeAscii_encodeAscii (s : String) (b : Bytes) (h : encodeAscii s = some b) :
    decodeAscii b = some s := by
  unfold encodeAscii at h
  split at h
  · rename_i hascii
    have hb := Option.some.inj h
    subst b
    have hlow : AsciiBytes (s.toList.map (fun c => UInt8.ofNat c.toNat)) := by
      intro x hx
      obtain ⟨c, hc, rfl⟩ := List.mem_map.mp hx
      have := hascii c hc
      rw [UInt8.toNat_ofNat', Nat.mod_eq_of_lt (by omega)]
      exact this
    have hmap : (s.toList.map (fun c => UInt8.ofNat c.toNat)).map
        (fun x => Char.ofNat x.toNat) = s.toList := by
      rw [List.map_map]
      conv => rhs; rw [← List.map_id s.toList]
      apply List.map_congr_left
      intro c hc
      exact ascii_byte_roundtrip c (hascii c hc)
    rw [decodeAscii, if_pos hlow, hmap, String.ofList_toList]
  · contradiction

theorem encodeAscii_decodeAscii (b : Bytes) (s : String) (h : decodeAscii b = some s) :
    encodeAscii s = some b := by
  unfold decodeAscii at h
  split at h
  · rename_i hlow
    have hascii : IsAscii s := by
      rw [← Option.some.inj h]
      intro c hc
      rw [String.toList_ofList] at hc
      obtain ⟨x, hx, rfl⟩ := List.mem_map.mp hc
      rw [ascii_char_roundtrip x (hlow x hx)]
      exact hlow x hx
    have hmap : s.toList.map (fun c => UInt8.ofNat c.toNat) = b := by
      rw [← Option.some.inj h, String.toList_ofList, List.map_map]
      conv => rhs; rw [← List.map_id b]
      refine List.map_congr_left fun x hx => ?_
      rw [Function.comp_apply, ascii_char_roundtrip x (hlow x hx)]
      exact UInt8.ofNat_toNat
    rw [encodeAscii, if_pos hascii, hmap]
  · cases h

theorem encodeAscii_length (s : String) (b : Bytes) (h : encodeAscii s = some b) :
    b.length = s.toList.length := by
  unfold encodeAscii at h
  split at h
  · have hb := Option.some.inj h
    rw [← hb, List.length_map]
  · contradiction

end TextCodec
