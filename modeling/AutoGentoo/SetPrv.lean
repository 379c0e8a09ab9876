import AutoGentoo.Vector

/-! The sets of `set.c`: vectors in which an element is looked for from the first slot on.
There is no result where the vector is undefined. -/

namespace AutoGentoo

/-- `Set_prv`, where `cmp_func` is an address, 0 for NULL. -/
structure SetPrv where
  parent : Vector
  cmpFunc : Nat
  deriving DecidableEq, Repr

/-- What `cmp_func` tells to be equal, `call` being what the functions return; without one
an element is equal to itself alone. -/
def Equal (call : Nat → Nat → Nat → Int) (cmpFunc item element : Nat) : Prop :=
  if cmpFunc = 0 then item = element else call cmpFunc item element = 0

instance (call : Nat → Nat → Nat → Int) (cmpFunc item element : Nat) :
    Decidable (Equal call cmpFunc item element) :=
  inferInstanceAs (Decidable (if cmpFunc = 0 then item = element else call cmpFunc item element = 0))

namespace SetPrv

variable (call : Nat → Nat → Nat → Int)

/-- With VECTOR_REMOVE | VECTOR_UNORDERED. -/
def setNew (cmpFunc : Nat) : SetPrv where
  parent := Vector.vectorNew vectorUnordered
  cmpFunc := cmpFunc

def setGet (self : SetPrv) (i : Nat) : Option Nat := Vector.vectorGet self.parent i

/-- The loop of `set_inside`, with so many turns to go. -/
def setInsideFrom (self : SetPrv) (item : Nat) : Nat → Nat → Option Int
  | 0, _ => some (-1)
  | count + 1, i =>
    (self.setGet i).bind fun element =>
      if Equal call self.cmpFunc item element then some i
      else setInsideFrom self item count (i + 1)

def setInside (self : SetPrv) (item : Nat) : Option Int :=
  self.setInsideFrom call item self.parent.n 0

def setAdd (self : SetPrv) (element : Nat) : Option (Nat × SetPrv) :=
  (self.setInside call element).bind fun index =>
    if index = -1 then
      (Vector.vectorAdd self.parent element).map fun r => (1, { self with parent := r.2 })
    else some (0, self)

/-- The element that is removed, or NULL. -/
def setRemove (self : SetPrv) (element : Nat) : Option (Nat × SetPrv) :=
  (self.setInside call element).bind fun index =>
    if index = -1 then some (0, self)
    else (Vector.vectorRemove self.parent index.toNat).map fun r => (r.1, { self with parent := r.2 })

def setDup (self : SetPrv) : Option SetPrv :=
  (List.range self.parent.n).foldlM (fun out i =>
    (self.setGet i).bind fun element => (out.setAdd call element).map Prod.snd) (setNew self.cmpFunc)

/-- The loop of `set_union`, on the sets of the program: the two may be the same one. -/
def unionLoop : Nat → List SetPrv → Nat → Nat → Nat → Option (List SetPrv)
  | 0, _, _, _, _ => none
  | fuel + 1, sets, s1, s2, i =>
    sets[s2]?.bind fun right =>
      if right.parent.n ≤ i then some sets
      else
        (right.setGet i).bind fun element =>
          sets[s1]?.bind fun left =>
            (left.setAdd call element).bind fun r => unionLoop fuel (sets.set s1 r.2) s1 s2 (i + 1)

/-- Sets with different functions are left alone. No set has more elements than an int
can count, nor the loop more turns. -/
def setUnion (sets : List SetPrv) (s1 s2 : Nat) : Option (List SetPrv) :=
  sets[s1]?.bind fun left =>
    sets[s2]?.bind fun right =>
      if left.cmpFunc ≠ right.cmpFunc then some sets else unionLoop call (2 ^ 31) sets s1 s2 0

/-- The loop of `set_intersect` over the elements of one set. -/
def intersectLoop (self other out : SetPrv) : Option SetPrv :=
  (List.range self.parent.n).foldlM (fun out i =>
    (self.setGet i).bind fun element =>
      (other.setInside call element).bind fun index =>
        if index ≠ -1 then (out.setAdd call element).map Prod.snd else some out) out

/-- NULL for sets with different functions. -/
def setIntersect (s1 s2 : SetPrv) : Option (Option SetPrv) :=
  if s1.cmpFunc ≠ s2.cmpFunc then some none
  else
    (if s2.parent.n < s1.parent.n then intersectLoop call s1 s2 (setNew s1.cmpFunc)
    else intersectLoop call s2 s1 (setNew s1.cmpFunc)).map some

end SetPrv

end AutoGentoo
