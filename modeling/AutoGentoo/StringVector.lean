import AutoGentoo.OwnedCells
import AutoGentoo.Vector

/-! The string vector of `string_vector.c`, which hands its struct to functions of
`vector.c` as if it were a Vector. An int has 4 bytes, and pointers and a size_t 8. -/

namespace AutoGentoo

open OwnedCells

/-- The members of a struct, of the given sizes and aligned to them: offset and size. -/
def members (offset : Nat) : List Nat → List (Nat × Nat)
  | [] => []
  | size :: sizes =>
    let start := (offset + size - 1) / size * size
    (start, size) :: members (start + size) sizes

/-- `free`, `ptr`, `n`, `s` and `opts` of `Vector_prv`. -/
def vectorMembers : List (Nat × Nat) := members 0 [8, 8, 4, 8, 4]

/-- `free`, `ptr`, `n` and `s` of `StringVector_prv`. -/
def stringVectorMembers : List (Nat × Nat) := members 0 [8, 8, 4, 4]

/-- The pointers are found where they are. -/
example : vectorMembers[1]? = stringVectorMembers[1]? := rfl

/-- The slots hold the addresses of strings; `strings` are those that are allocated. -/
structure StringVector where
  ptr : Slots
  n : Nat
  s : Nat
  strings : Nat → Option (List Char)

namespace StringVector

def stringVectorNew : StringVector where
  ptr := List.replicate 32 none
  n := 0
  s := 32
  strings := fun _ => none

/-- What a function of `vector.c` reads as the number at this place of a Vector. There is
nothing outside of the struct. -/
def readMember (self : StringVector) (place : Option (Nat × Nat)) : Option Nat :=
  if place = stringVectorMembers[2]? then some self.n
  else if place = stringVectorMembers[3]? then some self.s
  else none

def writeMember (self : StringVector) (place : Option (Nat × Nat)) (value : Nat) : Option StringVector :=
  if place = stringVectorMembers[2]? then some { self with n := value }
  else if place = stringVectorMembers[3]? then some { self with s := value }
  else none

/-- `vector_allocate`, whose `s` is the fourth member of a Vector. -/
def vectorAllocate (self : StringVector) : Option StringVector :=
  (self.readMember vectorMembers[3]?).bind fun s =>
    (self.writeMember vectorMembers[3]? (s * 2 % 2 ^ 64)).map fun self =>
      { self with ptr := self.ptr ++ List.replicate (s * 2 % 2 ^ 64 - self.ptr.length) none }

/-- `prv_vector_remove_ordered`, whose `n` is the third. -/
def prvVectorRemoveOrdered (self : StringVector) (index : Nat) : Option (Nat × StringVector) :=
  (Slots.read self.ptr index).bind fun out =>
    (self.readMember vectorMembers[2]?).bind fun n =>
      if n < index then none
      else (Slots.move self.ptr index (index + 1) (n - index)).map fun ptr => (out, { self with ptr := ptr })

/-- `strdup` returns `x`. -/
def stringVectorAdd (self : StringVector) (string : List Char) (x : Nat) : Option StringVector :=
  (if self.s = (self.n + 1) % 2 ^ 32 then self.vectorAllocate else some self).bind fun self =>
    (Slots.write self.ptr self.n x).map fun ptr =>
      { self with ptr := ptr, n := (self.n + 1) % 2 ^ 32, strings := put self.strings x string }

def stringVectorInsert (self : StringVector) (string : List Char) (index x : Nat) : Option StringVector :=
  (if self.s ≤ (self.n + 1) % 2 ^ 32 then self.vectorAllocate else some self).bind fun self =>
    (Slots.move self.ptr ((index + 1) % 2 ^ 32) index ((self.n + 2 ^ 32 - index) % 2 ^ 32)).bind fun ptr =>
      (Slots.write ptr index x).map fun ptr =>
        { self with ptr := ptr, n := (self.n + 1) % 2 ^ 32, strings := put self.strings x string }

/-- The loop of `string_vector_set`, which has to end within so many turns. -/
def setLoop : Nat → StringVector → Nat → Option StringVector
  | 0, _, _ => none
  | fuel + 1, self, index =>
    if index ≤ self.s then self.vectorAllocate.bind fun self => setLoop fuel self index else some self

def stringVectorSet (fuel : Nat) (self : StringVector) (string : List Char) (index x : Nat) :
    Option StringVector :=
  (setLoop fuel self index).bind fun self =>
    (Slots.read self.ptr index).bind fun oldValue =>
      (free self.strings oldValue).bind fun strings =>
        (Slots.write self.ptr index x).map fun ptr =>
          { self with ptr := ptr, strings := put strings x string }

def stringVectorRemove (self : StringVector) (index : Nat) : Option StringVector :=
  (self.prvVectorRemoveOrdered index).bind fun r =>
    (free r.2.strings r.1).map fun strings => { r.2 with strings := strings }

/-- A Vector has its size behind the end of the struct. -/
theorem vectorAllocate_eq (self : StringVector) : self.vectorAllocate = none := rfl

end StringVector

end AutoGentoo
