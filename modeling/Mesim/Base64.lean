import Mathlib.Data.List.GetD
import Mesim.Octets

/-!
Base64 text.
The encoder writes the standard alphabet with padding. The decoder is the lenient
one: characters outside the alphabet are skipped, and the first padding that
completes a group ends the input. It undoes the encoder.
-/
namespace Base64

open Octets

def alphabet : List Char :=
  "ABCDEFGHIJKLMNOPQRSTUVWXYZabcdefghijklmnopqrstuvwxyz0123456789+/".toList

/-- The character of six bits. -/
def charOf (v : ℕ) : Char := alphabet.getD v '='

def valueOf? (c : Char) : Option ℕ :=
  if alphabet.idxOf c < 64 then some (alphabet.idxOf c) else none

def encodeChars : Bytes → List Char
  | [] => []
  | [a] => [charOf (a.toNat / 4), charOf (a.toNat % 4 * 16), '=', '=']
  | [a, b] => [charOf (a.toNat / 4), charOf (a.toNat % 4 * 16 + b.toNat / 16),
      charOf (b.toNat % 16 * 4), '=']
  | a :: b :: c :: rest => charOf (a.toNat / 4) :: charOf (a.toNat % 4 * 16 + b.toNat / 16) ::
      charOf (b.toNat % 16 * 4 + c.toNat / 64) :: charOf (c.toNat % 64) :: encodeChars rest

def b64encode (b : Bytes) : String := String.ofList (encodeChars b)

inductive DecodeError where
  | extraCharacter
  | incorrectPadding
  deriving DecidableEq

/-- Where the decoder stands in a group of four, the bits left over from the last
character, the padding seen since, and the bytes so far. -/
structure Decoder where
  quadPos : ℕ
  leftchar : ℕ
  pads : ℕ
  out : Bytes

namespace Decoder

/-- One character of the alphabet. -/
def push (d : Decoder) (v : ℕ) : Decoder :=
  match d.quadPos with
  | 0 => ⟨1, v, 0, d.out⟩
  | 1 => ⟨2, v % 16, 0, d.out ++ [UInt8.ofNat (d.leftchar * 4 + v / 16)]⟩
  | 2 => ⟨3, v % 4, 0, d.out ++ [UInt8.ofNat (d.leftchar * 16 + v / 4)]⟩
  | _ => ⟨0, 0, 0, d.out ++ [UInt8.ofNat (d.leftchar * 64 + v)]⟩

def decode : Decoder → List Char → Except DecodeError Bytes
  | d, [] =>
    if d.quadPos = 0 then .ok d.out
    else if d.quadPos = 1 then .error .extraCharacter
    else .error .incorrectPadding
  | d, c :: rest =>
    if c = '=' then
      if 2 ≤ d.quadPos then
        if 4 ≤ d.quadPos + (d.pads + 1) then .ok d.out
        else decode { d with pads := d.pads + 1 } rest
      else decode d rest
    else match valueOf? c with
      | none => decode d rest
      | some v => decode (d.push v) rest

end Decoder

/-- `binascii.a2b_base64` without strict mode. -/
def decodeChars (chars : List Char) : Except DecodeError Bytes :=
  Decoder.decode ⟨0, 0, 0, []⟩ chars

section Characters

theorem charOf_mem (v : ℕ) : charOf v ∈ '=' :: alphabet := by
  by_cases hv : v < alphabet.length
  · rw [charOf, List.getD_eq_getElem _ _ hv]
    exact List.mem_cons_of_mem _ (List.getElem_mem hv)
  · rw [charOf, List.getD_eq_default _ _ (Nat.not_lt.mp hv)]
    exact List.mem_cons_self

theorem mem_encodeChars (b : Bytes) (c : Char) (h : c ∈ encodeChars b) : c ∈ '=' :: alphabet := by
  induction b using encodeChars.induct with
  | case1 => exact absurd h List.not_mem_nil
  | case2 a =>
    simp only [encodeChars, List.mem_cons, List.not_mem_nil, or_false] at h
    rcases h with rfl | rfl | rfl | rfl
    · exact charOf_mem _
    · exact charOf_mem _
    · exact List.mem_cons_self
    · exact List.mem_cons_self
  | case3 a b =>
    simp only [encodeChars, List.mem_cons, List.not_mem_nil, or_false] at h
    rcases h with rfl | rfl | rfl | rfl
    · exact charOf_mem _
    · exact charOf_mem _
    · exact charOf_mem _
    · exact List.mem_cons_self
  | case4 a b d rest ih =>
    rw [encodeChars] at h
    simp only [List.mem_cons] at h
    rcases h with rfl | rfl | rfl | rfl | hrest
    · exact charOf_mem _
    · exact charOf_mem _
    · exact charOf_mem _
    · exact charOf_mem _
    · exact ih hrest

end Characters

section RoundTrip

open Decoder

theorem charOf_spec (v : ℕ) (h : v < 64) : charOf v ≠ '=' ∧ valueOf? (charOf v) = some v := by
  have hall : (List.range 64).all (fun v => charOf v ≠ '=' ∧ valueOf? (charOf v) = some v) = true := by
    decide +kernel
  exact of_decide_eq_true (List.all_eq_true.mp hall v (List.mem_range.mpr h))

theorem decode_charOf (d : Decoder) (v : ℕ) (rest : List Char) (h : v < 64) :
    decode d (charOf v :: rest) = decode (d.push v) rest := by
  obtain ⟨hpad, hvalue⟩ := charOf_spec v h
  rw [decode, if_neg hpad, hvalue]

theorem ofNat_join (a : UInt8) (n : ℕ) (h : n = a.toNat) : UInt8.ofNat n = a := by
  rw [h, UInt8.ofNat_toNat]

theorem decode_group (out : Bytes) (a b c : UInt8) (rest : List Char) :
    decode ⟨0, 0, 0, out⟩ (charOf (a.toNat / 4) :: charOf (a.toNat % 4 * 16 + b.toNat / 16) ::
      charOf (b.toNat % 16 * 4 + c.toNat / 64) :: charOf (c.toNat % 64) :: rest) =
      decode ⟨0, 0, 0, out ++ [a, b, c]⟩ rest := by
  have ha := a.toNat_lt
  have hb := b.toNat_lt
  have hc := c.toNat_lt
  rw [decode_charOf _ _ _ (by omega), decode_charOf _ _ _ (by omega), decode_charOf _ _ _ (by omega),
    decode_charOf _ _ _ (by omega)]
  simp only [push, List.append_assoc, List.cons_append, List.nil_append]
  rw [ofNat_join a _ (by omega), ofNat_join b _ (by omega), ofNat_join c _ (by omega)]

theorem decode_encodeChars (out b : Bytes) :
    decode ⟨0, 0, 0, out⟩ (encodeChars b) = .ok (out ++ b) := by
  induction b using encodeChars.induct generalizing out with
  | case1 => rw [encodeChars, decode, if_pos rfl, List.append_nil]
  | case2 a =>
    have ha := a.toNat_lt
    rw [encodeChars, decode_charOf _ _ _ (by omega), decode_charOf _ _ _ (by omega)]
    simp only [push, decode, if_true]
    rw [ofNat_join a _ (by omega)]
    rfl
  | case3 a b =>
    have ha := a.toNat_lt
    have hb := b.toNat_lt
    rw [encodeChars, decode_charOf _ _ _ (by omega), decode_charOf _ _ _ (by omega),
      decode_charOf _ _ _ (by omega)]
    simp only [push, decode, if_true, List.append_assoc, List.cons_append, List.nil_append]
    rw [ofNat_join a _ (by omega), ofNat_join b _ (by omega)]
    rfl
  | case4 a b c rest ih => rw [encodeChars, decode_group, ih, List.append_assoc]; rfl

/-- Decoding undoes encoding. -/
theorem decodeChars_b64encode (b : Bytes) : decodeChars (b64encode b).toList = .ok b := by
  rw [b64encode, String.toList_ofList, decodeChars, decode_encodeChars, List.nil_append]

end RoundTrip

end Base64
