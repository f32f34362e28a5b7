import Mathlib.Data.List.DropRight
import Mathlib.Data.Vector.Basic
import Mathlib.Tactic.Linarith
import Mathlib.Tactic.Positivity
import Mathlib.Tactic.Ring

/-!
Byte strings and their fixed-width big-endian fields.
Packing writes the low bytes of a number, most significant first; unpacking
reads any byte string as a number. On numbers that fit, and on byte strings of
the stated width, the two are inverse. Padding and stripping act on one end.
-/
namespace Octets

abbrev Bytes := List UInt8

/-- Byte strings of a stated length. -/
abbrev Fixed (n : ℕ) := List.Vector UInt8 n

/-- The `width` low bytes of `n`, most significant first. -/
def packBE : ℕ → ℕ → Bytes
  | 0, _ => []
  | width + 1, n => UInt8.ofNat (n / 256 ^ width) :: packBE width n

def unpackBE (b : Bytes) : ℕ := b.foldl (fun acc x => acc * 256 + x.toNat) 0

/-- Pad on the right with `fill` up to `n` bytes; longer strings are unchanged. -/
def ljust (b : Bytes) (n : ℕ) (fill : UInt8) : Bytes := b ++ List.replicate (n - b.length) fill

/-- Drop the trailing run of `fill` bytes. -/
def rstrip (b : Bytes) (fill : UInt8) : Bytes := b.rdropWhile (· = fill)

/-- The bytes from `start` on, at most `len` of them. -/
def slice (b : Bytes) (start len : ℕ) : Bytes := (b.drop start).take len

@[simp] theorem packBE_length (width n : ℕ) : (packBE width n).length = width := by
  induction width with
  | zero => rfl
  | succ width ih => simp [packBE, ih]

theorem foldl_unpack (b : Bytes) (acc : ℕ) :
    b.foldl (fun acc x => acc * 256 + x.toNat) acc = acc * 256 ^ b.length + unpackBE b := by
  induction b generalizing acc with
  | nil => simp [unpackBE]
  | cons x rest ih =>
    simp only [unpackBE, List.foldl_cons, List.length_cons]
    rw [ih, ih (0 * 256 + x.toNat)]
    ring

theorem unpackBE_cons (x : UInt8) (rest : Bytes) :
    unpackBE (x :: rest) = x.toNat * 256 ^ rest.length + unpackBE rest := by
  simp only [unpackBE, List.foldl_cons, Nat.zero_mul, Nat.zero_add]
  exact foldl_unpack rest x.toNat

theorem unpackBE_lt (b : Bytes) : unpackBE b < 256 ^ b.length := by
  induction b with
  | nil => simp [unpackBE]
  | cons x rest ih =>
    have hx : x.toNat < 256 := x.toNat_lt
    have hmul : (x.toNat + 1) * 256 ^ rest.length ≤ 256 * 256 ^ rest.length :=
      Nat.mul_le_mul_right _ (by omega)
    rw [unpackBE_cons, List.length_cons, Nat.pow_succ]
    nlinarith

theorem unpackBE_packBE_mod (width n : ℕ) : unpackBE (packBE width n) = n % 256 ^ width := by
  induction width with
  | zero => simp [packBE, unpackBE, Nat.mod_one]
  | succ width ih =>
    rw [packBE, unpackBE_cons, packBE_length, ih]
    simp only [UInt8.toNat_ofNat']
    have hmod : n % 256 ^ (width + 1) = n % (256 ^ width * 256) := by rw [Nat.pow_succ]
    rw [hmod, Nat.mod_mul]
    ring

theorem unpackBE_packBE (width n : ℕ) (h : n < 256 ^ width) : unpackBE (packBE width n) = n := by
  rw [unpackBE_packBE_mod, Nat.mod_eq_of_lt h]

theorem packBE_add_mul (width n m : ℕ) :
    packBE width (m * 256 ^ width + n) = packBE width n := by
  induction width generalizing m with
  | zero => rfl
  | succ width ih =>
    have hdiv : (m * 256 ^ (width + 1) + n) / 256 ^ width = m * 256 + n / 256 ^ width := by
      rw [Nat.pow_succ, ← Nat.mul_assoc, Nat.mul_right_comm, Nat.add_comm,
        Nat.add_mul_div_right _ _ (by positivity), Nat.add_comm]
    have hhead : UInt8.ofNat (m * 256 + n / 256 ^ width) = UInt8.ofNat (n / 256 ^ width) := by
      apply UInt8.toNat_inj.mp
      simp only [UInt8.toNat_ofNat']
      omega
    have htail : packBE width (m * 256 ^ (width + 1) + n) = packBE width n := by
      rw [Nat.pow_succ, Nat.mul_comm (256 ^ width) 256, ← Nat.mul_assoc]
      exact ih (m * 256)
    rw [packBE, packBE, hdiv, hhead, htail]

theorem packBE_unpackBE (b : Bytes) : packBE b.length (unpackBE b) = b := by
  induction b with
  | nil => rfl
  | cons x rest ih =>
    have hlt := unpackBE_lt rest
    have hhead : UInt8.ofNat ((x.toNat * 256 ^ rest.length + unpackBE rest) / 256 ^ rest.length)
        = x := by
      rw [Nat.add_comm, Nat.add_mul_div_right _ _ (by positivity), Nat.div_eq_of_lt hlt]
      simp
    rw [List.length_cons, packBE, unpackBE_cons, hhead, packBE_add_mul, ih]

theorem packBE_injective (width n m : ℕ) (hn : n < 256 ^ width) (hm : m < 256 ^ width)
    (h : packBE width n = packBE width m) : n = m := by
  rw [← unpackBE_packBE width n hn, h, unpackBE_packBE width m hm]

theorem ljust_length (b : Bytes) (n : ℕ) (fill : UInt8) (h : b.length ≤ n) :
    (ljust b n fill).length = n := by
  simp only [ljust, List.length_append, List.length_replicate]
  omega

theorem ljust_eq_self (b : Bytes) (n : ℕ) (fill : UInt8) (h : n ≤ b.length) :
    ljust b n fill = b := by
  simp [ljust, Nat.sub_eq_zero_of_le h]

theorem rstrip_append_replicate (b : Bytes) (k : ℕ) (fill : UInt8) :
    rstrip (b ++ List.replicate k fill) fill = rstrip b fill := by
  induction k with
  | zero => simp
  | succ k ih =>
    rw [List.replicate_succ', ← List.append_assoc, rstrip, List.rdropWhile_concat_pos _ _ _ (by simp)]
    exact ih

theorem rstrip_eq_self (b : Bytes) (fill : UInt8) (h : b.getLast? ≠ some fill) :
    rstrip b fill = b := by
  apply List.rdropWhile_eq_self_iff.mpr
  intro hne
  rw [List.getLast?_eq_some_getLast hne] at h
  simpa using h

/-- Stripping the padding returns the padded string when it did not end in padding. -/
theorem rstrip_ljust (b : Bytes) (n : ℕ) (fill : UInt8) (h : b.getLast? ≠ some fill) :
    rstrip (ljust b n fill) fill = b := by
  rw [ljust, rstrip_append_replicate, rstrip_eq_self b fill h]

theorem rstrip_length_le (b : Bytes) (fill : UInt8) : (rstrip b fill).length ≤ b.length :=
  (List.rdropWhile_prefix _ b).length_le

theorem getLast?_rstrip (b : Bytes) (fill : UInt8) : (rstrip b fill).getLast? ≠ some fill := by
  intro h
  by_cases hne : rstrip b fill = []
  · rw [hne] at h
    cases h
  · rw [List.getLast?_eq_some_getLast hne] at h
    exact List.rdropWhile_last_not _ b hne (decide_eq_true (Option.some.inj h))

/-- Padding a stripped string back to its width returns it. -/
theorem ljust_rstrip (b : Bytes) (fill : UInt8) : ljust (rstrip b fill) b.length fill = b := by
  have hsplit : rstrip b fill ++ b.rtakeWhile (· = fill) = b := List.rdropWhile_append_rtakeWhile
  have hpad : b.rtakeWhile (· = fill) =
      List.replicate (b.rtakeWhile (· = fill)).length fill :=
    List.eq_replicate_of_mem fun x hx => by simpa using List.mem_rtakeWhile_imp hx
  have hcount : b.length - (rstrip b fill).length = (b.rtakeWhile (· = fill)).length := by
    have hlen := congrArg List.length hsplit
    rw [List.length_append] at hlen
    omega
  rw [ljust, hcount, ← hpad, hsplit]

theorem slice_append_right (a b : Bytes) (start len : ℕ) (h : a.length ≤ start) :
    slice (a ++ b) start len = slice b (start - a.length) len := by
  simp only [slice, List.drop_append, List.drop_eq_nil_of_le h, List.nil_append]

theorem slice_append_left (a b : Bytes) (len : ℕ) (h : a.length = len) :
    slice (a ++ b) 0 len = a := by
  simp only [slice, List.drop_zero]
  exact List.take_left' h

/-- A piece of known offset and width inside a concatenation is cut out exactly. -/
theorem slice_piece (pre piece post : Bytes) (start len : ℕ) (hpre : pre.length = start)
    (hpiece : piece.length = len) : slice (pre ++ (piece ++ post)) start len = piece := by
  rw [slice, List.drop_left' hpre]
  exact List.take_left' hpiece

theorem slice_self (a : Bytes) (len : ℕ) (h : a.length ≤ len) : slice a 0 len = a := by
  simp only [slice, List.drop_zero]
  exact List.take_of_length_le h

theorem slice_length (b : Bytes) (start len : ℕ) (h : start + len ≤ b.length) :
    (slice b start len).length = len := by
  simp only [slice, List.length_take, List.length_drop]
  omega

/-- Two neighbouring slices make one. -/
theorem slice_append_slice (b : Bytes) (start n m : ℕ) :
    slice b start n ++ slice b (start + n) m = slice b start (n + m) := by
  rw [slice, slice, slice, ← List.drop_drop, List.take_add]

end Octets
