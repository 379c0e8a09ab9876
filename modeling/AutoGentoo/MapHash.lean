import Mathlib.Algebra.Order.Ring.Nat

/-! The hash `map_get_hash` of a byte string, on a little-endian machine. -/

namespace AutoGentoo

def rotl (x r : UInt32) : UInt32 := (x <<< r) ||| (x >>> (32 - r))

def scramble (k : UInt32) : UInt32 := rotl (k * 0xcc9e2d51) 15 * 0x1b873593

/-- Four bytes as the `U32` they are read as. -/
def wordOf (a b c d : UInt8) : UInt32 :=
  a.toUInt32 ||| (b.toUInt32 <<< 8) ||| (c.toUInt32 <<< 16) ||| (d.toUInt32 <<< 24)

def mixBlock (h k : UInt32) : UInt32 := rotl (h ^^^ scramble k) 13 * 5 + 0xe6546b64

/-- The loop over the blocks, then the `switch` over what is left. -/
def mixBytes (h : UInt32) : List UInt8 → UInt32
  | a :: b :: c :: d :: rest => mixBytes (mixBlock h (wordOf a b c d)) rest
  | [a, b, c] =>
    h ^^^ scramble ((c.toUInt32 <<< 16) ^^^ (b.toUInt32 <<< 8) ^^^ a.toUInt32)
  | [a, b] => h ^^^ scramble ((b.toUInt32 <<< 8) ^^^ a.toUInt32)
  | [a] => h ^^^ scramble a.toUInt32
  | [] => h

def avalanche (h : UInt32) : UInt32 :=
  let h := (h ^^^ (h >>> 16)) * 0x85ebca6b
  let h := (h ^^^ (h >>> 13)) * 0xc2b2ae35
  h ^^^ (h >>> 16)

/-- The length arrives as a `U32`; bytes behind it are not read. -/
def hashBytes (data : List UInt8) : Nat :=
  let nbytes := data.length % 2 ^ 32
  if nbytes = 0 then 0
  else (avalanche (mixBytes 0 (data.take nbytes) ^^^ UInt32.ofNat nbytes)).toNat

/-- `map_get_hash (key, strlen (key))` -/
def mapGetHash (key : List Char) : Nat := hashBytes (key.map fun c => UInt8.ofNat c.toNat)

/-- A number as it lies in memory. -/
def littleEndian : Nat → Nat → List UInt8
  | 0, _ => []
  | width + 1, n => UInt8.ofNat n :: littleEndian width (n / 256)

example : mapGetHash "key".toList = 3801901636 := by decide

theorem hashBytes_lt (data : List UInt8) : hashBytes data < 2 ^ 32 := by
  simp only [hashBytes]
  split_ifs
  · decide
  · exact UInt32.toNat_lt _

theorem mapGetHash_lt (key : List Char) : mapGetHash key < 2 ^ 32 := hashBytes_lt _

end AutoGentoo
