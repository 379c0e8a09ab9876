import AutoGentoo.MapHash
import Mathlib.Tactic.NormNum

/-! The number of a word in memory, and the words of numbers. -/

namespace AutoGentoo

def wordValue : List UInt8 → Nat
  | [] => 0
  | byte :: word => 256 * wordValue word + byte.toNat

@[simp] theorem length_littleEndian (width n : Nat) : (littleEndian width n).length = width := by
  induction width generalizing n with
  | zero => rfl
  | succ width ih => rw [littleEndian, List.length_cons, ih]

theorem wordValue_lt (word : List UInt8) : wordValue word < 256 ^ word.length := by
  induction word with
  | nil => exact Nat.one_pos
  | cons byte word ih =>
    have hbyte : byte.toNat < 256 := byte.toNat_lt
    rw [wordValue, List.length_cons, Nat.pow_succ]
    omega

theorem wordValue_littleEndian {width n : Nat} (h : n < 256 ^ width) : wordValue (littleEndian width n) = n := by
  induction width generalizing n with
  | zero =>
    rw [Nat.pow_zero] at h
    rw [littleEndian, wordValue]
    omega
  | succ width ih =>
    have hrest : n / 256 < 256 ^ width := by
      rw [Nat.pow_succ] at h
      omega
    have hlow : (UInt8.ofNat n).toNat = n % 256 := UInt8.toNat_ofNat'
    rw [littleEndian, wordValue, ih hrest, hlow]
    omega

theorem littleEndian_wordValue (word : List UInt8) : littleEndian word.length (wordValue word) = word := by
  induction word with
  | nil => rfl
  | cons byte word ih =>
    have hbyte : byte.toNat < 256 := byte.toNat_lt
    have hlow : UInt8.ofNat (256 * wordValue word + byte.toNat) = byte := by
      apply UInt8.toNat_inj.mp
      rw [UInt8.toNat_ofNat']
      omega
    have hrest : (256 * wordValue word + byte.toNat) / 256 = wordValue word := by omega
    rw [List.length_cons, wordValue, littleEndian, hlow, hrest, ih]

theorem littleEndian_wordValue_of_length {word : List UInt8} {width : Nat} (h : word.length = width) :
    littleEndian width (wordValue word) = word := by
  rw [← h]
  exact littleEndian_wordValue word

end AutoGentoo
