import Mathlib.Algebra.Order.Ring.Nat
import Mathlib.Data.List.Basic

/-! The vector of `vector.c`: an allocation of `s` slots of which the first `n` are in
use. `none` stands for what C leaves undefined: an `int` that overflows, and a slot
outside the allocation or read before it is written. -/

namespace AutoGentoo

/-- The bits of `vector_opts`. -/
def vectorUnordered : Nat := 0x0
def vectorOrdered : Nat := 0x1
def vectorKeep : Nat := 0x2

/-- The slots of an allocation, each `none` until it is written. The elements are
addresses, 0 for NULL. -/
abbrev Slots := List (Option Nat)

namespace Slots

def read (self : Slots) (i : Nat) : Option Nat := self[i]?.join

def write (self : Slots) (i x : Nat) : Option Slots :=
  if i < self.length then some (self.set i (some x)) else none

/-- `memmove`, as which `memcpy` is taken to behave. -/
def move (self : Slots) (dst src count : Nat) : Option Slots :=
  if dst + count ≤ self.length ∧ src + count ≤ self.length then
    some (self.take dst ++ (self.drop src).take count ++ self.drop (dst + count))
  else none

end Slots

structure Vector where
  ptr : Slots
  n : Nat
  s : Nat
  opts : Nat
  deriving DecidableEq, Repr

/-- A sum in an `int`. -/
def intSum (a b : Nat) : Option Nat := if a + b < 2 ^ 31 then some (a + b) else none

namespace Vector

def vectorNew (opts : Nat) : Vector where
  ptr := List.replicate 32 none
  n := 0
  s := 32
  opts := opts

def vectorAllocate (self : Vector) : Vector :=
  { self with ptr := self.ptr ++ List.replicate self.s none, s := self.s * 2 }

def vectorAllocateToSize (self : Vector) (s : Nat) : Vector :=
  { self with ptr := self.ptr ++ List.replicate s none, s := self.s + s }

/-- The index of the new element, and the vector. -/
def vectorAdd (self : Vector) (el : Nat) : Option (Nat × Vector) :=
  (intSum self.n 1).bind fun next =>
    let grown := if self.s = next then vectorAllocate self else self
    (Slots.write grown.ptr grown.n el).map fun ptr => (self.n, { grown with ptr := ptr, n := next })

/-- NULL instead of the element. -/
def prvVectorKeepRemove (self : Vector) (index : Nat) : Option (Nat × Vector) :=
  (Slots.read self.ptr index).bind fun out =>
    (Slots.write self.ptr index 0).map fun ptr => (out, { self with ptr := ptr })

def prvVectorRemoveUnordered (self : Vector) (index : Nat) : Option (Nat × Vector) :=
  (Slots.read self.ptr (self.n - 1)).bind fun last =>
    (Slots.read self.ptr index).bind fun out =>
      (Slots.write self.ptr index last).bind fun ptr =>
        (Slots.write ptr (self.n - 1) 0).map fun ptr => (out, { self with ptr := ptr })

def prvVectorRemoveOrdered (self : Vector) (index : Nat) : Option (Nat × Vector) :=
  (Slots.read self.ptr index).bind fun out =>
    (Slots.move self.ptr index (index + 1) (self.n - index)).map fun ptr =>
      (out, { self with ptr := ptr })

/-- The element that is returned has lost the reference of the vector. -/
def vectorRemove (self : Vector) (index : Nat) : Option (Nat × Vector) :=
  if self.n ≤ index then some (0, self)
  else if self.opts &&& vectorKeep ≠ 0 then prvVectorKeepRemove self index
  else
    let self := { self with n := self.n - 1 }
    if self.opts &&& vectorUnordered ≠ 0 then prvVectorRemoveUnordered self index
    else prvVectorRemoveOrdered self index

/-- The index is unsigned, and so is what is computed from it. -/
def vectorInsert (self : Vector) (el index : Nat) : Option Vector :=
  (intSum self.n 1).bind fun next =>
    let grown := if self.s ≤ next then vectorAllocate self else self
    (Slots.move grown.ptr ((index + 1) % 2 ^ 32) index
        ((grown.n + 2 ^ 32 - index) % 2 ^ 32)).bind fun ptr =>
      (Slots.write ptr index el).map fun ptr => { grown with ptr := ptr, n := next }

def vectorGet (self : Vector) (i : Nat) : Option Nat := Slots.read self.ptr i

/-- The vectors are different ones. -/
def vectorExtend (dest ex : Vector) : Option Vector :=
  (List.range ex.n).foldlM (fun dest i =>
    (vectorGet ex i).bind fun el => (vectorAdd dest el).map Prod.snd) dest

end Vector

end AutoGentoo
