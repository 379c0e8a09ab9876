import AutoGentoo.MapHash
import AutoGentoo.Binary64
import AutoGentoo.Chains

/-! The lookup table of `lut.c`: nodes chained by hash under ids that carry the
hash and the number of same-hash nodes met at insertion. `none` stands for a
failed assertion. -/

namespace AutoGentoo

/-- The bits of `lut_flag_t`. -/
def lutFlagNone : Nat := 0
def lutFlagNotFound : Nat := 1
def lutFlagExists : Nat := 2
def lutFlagReference : Nat := 4
def lutFlagPython : Nat := 8
def lutFlagArbitrary : Nat := 16

def lutHashMask : Nat := 0x00000000ffffffff
def lutOverlapMask : Nat := 0x0000ffff00000000

def lutIdGetHash (id : Nat) : Nat := id &&& lutHashMask

/-- The id for a hash and an overlap count. -/
def lutId (hash hashOverlap : Nat) : Nat :=
  (hash &&& lutHashMask) ||| ((hashOverlap <<< 32) &&& lutOverlapMask)

structure LutNode where
  id : Nat
  key : List Char
  data : Nat
  flags : Nat
  deriving DecidableEq, Repr

def LutNode.hash (node : LutNode) : Nat := lutIdGetHash node.id

/-- `n` counts in 32 bits, `size` in 64. -/
structure Lut where
  table : List (List LutNode)
  n : Nat
  size : Nat
  reallocAt : Nat
  deriving DecidableEq, Repr

/-- `size * LUT_THRESHOLD`, the double nearest to 0.7 being this many times
`2 ^ -53`. -/
def lutThreshold (size : Nat) : Nat := Binary64.mulTrunc 6305039478318694 size

namespace Lut

def lutNew (newSize : Nat) : Lut where
  table := Chains.empty newSize
  n := 0
  size := newSize
  reallocAt := lutThreshold newSize

/-- One turn of the inner loop of `lut_realloc`, with the count. -/
def moveNode (s : List (List LutNode) × Nat) (node : LutNode) : List (List LutNode) × Nat :=
  (Chains.add LutNode.hash s.1 node, (s.2 + 1) % 2 ^ 32)

def moveChains (oldCount : Nat) : List (List LutNode) → List (List LutNode) × Nat →
    List (List LutNode) × Nat
  | [], s => s
  | chain :: rest, s =>
    if s.2 < oldCount then moveChains oldCount rest (chain.foldl moveNode s) else s

def lutRealloc (self : Lut) (size : Nat) : Option Lut :=
  let moved := moveChains self.n self.table (Chains.empty size, 0)
  if moved.2 = self.n then
    some { table := moved.1, n := moved.2, size := size, reallocAt := lutThreshold size }
  else none

/-- The search of the overwriting branch. -/
def overwrite (id data flag : Nat) : List LutNode → Option (List LutNode)
  | [] => none
  | node :: rest =>
    if node.id = id then some ({ node with data := data, flags := flag } :: rest)
    else (overwrite id data flag rest).map (node :: ·)

def insertNode (self : Lut) (node : LutNode) : Option Lut :=
  if node.flags &&& lutFlagNotFound ≠ 0 then
    some { self with
      table := Chains.add LutNode.hash self.table node
      n := (self.n + 1) % 2 ^ 32 }
  else if node.flags &&& lutFlagExists ≠ 0 then
    (overwrite node.id node.data node.flags (Chains.bucket self.table node.hash)).map
      fun chain => { self with table := Chains.modifyBucket self.table node.hash fun _ => chain }
  else some self

/-- The growth check in front of every insertion. -/
def grow (self : Lut) : Option Lut :=
  if self.reallocAt ≤ (self.n + 1) % 2 ^ 32 then lutRealloc self (self.size * 4 % 2 ^ 64)
  else some self

def lutInsertId (self : Lut) (key : List Char) (data id flag : Nat) : Option Lut := do
  let grown ← grow self
  insertNode grown { id := id, key := key, data := data, flags := flag }

def findId (self : Lut) (id : Nat) : Option LutNode :=
  (Chains.bucket self.table (lutIdGetHash id)).find? (·.id = id)

def lutGetKey (self : Lut) (id : Nat) : Option (List Char) := (findId self id).map LutNode.key

def lutGet (self : Lut) (id : Nat) : Nat := ((findId self id).map LutNode.data).getD 0

/-- The walk of `lut_get_id` with its 16-bit counter. -/
def idLoop (key : List Char) (hash : Nat) : Nat → List LutNode → Nat × Nat
  | hashOverlap, [] => (lutId hash hashOverlap, lutFlagNotFound)
  | hashOverlap, node :: rest =>
    if node.hash = hash then
      if key = node.key then (node.id, lutFlagExists)
      else idLoop key hash ((hashOverlap + 1) % 2 ^ 16) rest
    else idLoop key hash hashOverlap rest

/-- The id of a key and the flag reported with it. -/
def lutGetId (self : Lut) (key : List Char) : Nat × Nat :=
  let hash := mapGetHash key
  idLoop key hash 0 (Chains.bucket self.table hash)

def lutInsert (self : Lut) (key : List Char) (data flags : Nat) : Option (Lut × Nat) := do
  let found := lutGetId self key
  let lut ← lutInsertId self key data found.1 (found.2 ||| flags)
  return (lut, found.1)

end Lut

end AutoGentoo
