import AutoGentoo.OwnedCells
import AutoGentoo.RefCounts
import AutoGentoo.Vector

/-! The small map of `small_map.c`: entries with a key and data in a vector, found by the
first that has the key. There is no result where memory is read or freed that is not
allocated. -/

namespace AutoGentoo

open OwnedCells

/-- The key is an address, and so is the data. -/
structure SmallMapKey where
  referenceCount : Nat
  key : Nat
  dataPtr : Nat
  deriving DecidableEq, Repr

/-- The vector, with the entries and the key strings that are allocated, and the counts of
the data. -/
structure SmallMap where
  vector : Vector
  entries : Nat → Option SmallMapKey
  keys : Nat → Option (List Char)
  counts : RefCounts Nat

namespace SmallMap

/-- `small_map_new`, with VECTOR_REMOVE | VECTOR_UNORDERED. -/
def smallMapNew (startSize : Nat) (counts : RefCounts Nat) : SmallMap where
  vector := Vector.vectorAllocateToSize (Vector.vectorNew vectorUnordered) startSize
  entries := fun _ => none
  keys := fun _ => none
  counts := counts

def smallMapKeyFree (self : SmallMap) (x : Nat) : Option SmallMap :=
  (self.entries x).bind fun entry =>
    (free self.keys entry.key).bind fun keys =>
      (free self.entries x).map fun entries =>
        { self with entries := entries, keys := keys, counts := self.counts.releaseUnsigned entry.dataPtr }

/-- `OBJECT_INCREF` of an entry. -/
def incref (self : SmallMap) (x : Nat) : Option SmallMap :=
  if x = 0 then some self
  else (self.entries x).map fun entry =>
    { self with
      entries := put self.entries x
        { entry with referenceCount := (entry.referenceCount + 1) % 2 ^ 64 } }

/-- `OBJECT_DECREF` of an entry. -/
def decref (self : SmallMap) (x : Nat) : Option SmallMap :=
  if x = 0 then some self
  else (self.entries x).bind fun entry =>
    if entry.referenceCount = 0 then smallMapKeyFree self x
    else
      let counted := { self with
        entries := put self.entries x { entry with referenceCount := entry.referenceCount - 1 } }
      if entry.referenceCount - 1 = 0 then smallMapKeyFree counted x else some counted

def vectorAdd (self : SmallMap) (x : Nat) : Option SmallMap :=
  (self.incref x).bind fun self =>
    (Vector.vectorAdd self.vector x).map fun r => { self with vector := r.2 }

/-- `vector_remove`, which gives up the reference to the entry. -/
def vectorRemove (self : SmallMap) (index : Nat) : Option SmallMap :=
  (Vector.vectorRemove self.vector index).bind fun r => { self with vector := r.2 }.decref r.1

/-- `malloc` returns `x` for the entry, in which the count is what the memory holds, and
`strdup` returns `y`. -/
def smallMapInsert (self : SmallMap) (key : List Char) (data x y count : Nat) : Option SmallMap :=
  vectorAdd { self with
    entries := put self.entries x { referenceCount := count, key := y, dataPtr := data }
    keys := put self.keys y key } x

/-- The loop over the entries: the index of the first with the key, and its address. -/
def findKey (self : SmallMap) (key : List Char) : Nat → Nat → Option (Option (Nat × Nat))
  | 0, _ => some none
  | count + 1, i =>
    (Vector.vectorGet self.vector i).bind fun x =>
      (self.entries x).bind fun entry =>
        (self.keys entry.key).bind fun text =>
          if key = text then some (some (i, x)) else findKey self key count (i + 1)

/-- The data, or NULL. -/
def smallMapGet (self : SmallMap) (key : List Char) : Option Nat :=
  (self.findKey key self.vector.n 0).bind fun
    | none => some 0
    | some (_, x) => (self.entries x).map SmallMapKey.dataPtr

/-- What is done to an entry of the vector: its key is freed, it is removed, and its data
returned. -/
def deleteEntry (self : SmallMap) (index x : Nat) : Option (Nat × SmallMap) :=
  (self.entries x).bind fun entry =>
    (free self.keys entry.key).bind fun keys =>
      (vectorRemove { self with keys := keys } index).bind fun self =>
        (self.entries x).map fun entry => (entry.dataPtr, self)

def smallMapDelete (self : SmallMap) (key : List Char) : Option (Nat × SmallMap) :=
  (self.findKey key self.vector.n 0).bind fun
    | none => some (0, self)
    | some (i, x) => self.deleteEntry i x

def smallMapDeleteIndex (self : SmallMap) (index : Nat) : Option (Nat × SmallMap) :=
  if self.vector.n ≤ index then some (0, self)
  else (Vector.vectorGet self.vector index).bind fun x => self.deleteEntry index x

end SmallMap

end AutoGentoo
