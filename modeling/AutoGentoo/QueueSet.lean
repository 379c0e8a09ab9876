import AutoGentoo.GuardedRun
import AutoGentoo.LinkedVector
import AutoGentoo.Representatives

/-! The queue sets of `queue_set.c`, from their making to `queue_set_free`, with a caller
that makes objects, takes references to them and gives them back. -/

namespace AutoGentoo

open GuardedRun Representatives

/-- What a comparison sees of an element; there is no result where it has been freed. -/
def Memory.see {α : Type} (self : Memory α) (x : Nat) : Option (Nat × Option α) :=
  if x = 0 then some (0, none) else (self.objects x).map fun object => (x, some object.value)

/-- The loop of `linked_vector_free`, with so many turns at most. -/
def LinkedVector.freeFrom {α : Type} : Nat → Memory α → Nat → Option (Memory α)
  | 0, _, _ => none
  | fuel + 1, memory, current =>
    if current = 0 then some memory
    else
      (memory.nodes current).bind fun node =>
        (memory.linkedNodeFree current).bind fun memory => freeFrom fuel memory node.next

/-- The addresses `queue_foreach` gives to its function. -/
def LinkedVector.foreachFrom {α : Type} (memory : Memory α) : Nat → Nat → Option (List Nat)
  | 0, _ => none
  | fuel + 1, current =>
    if current = 0 then some []
    else
      (memory.nodes current).bind fun node =>
        (foreachFrom memory fuel node.next).map fun rest => node.data :: rest

/-- `QueueSet_prv`; elements are the same where the comparison is not 0. -/
structure QueueSet (α : Type) where
  parent : LinkedVector
  cmp : Nat × Option α → Nat × Option α → Int

def cmpDefault {α : Type} (e1 e2 : Nat × Option α) : Int := if e1.1 = e2.1 then 1 else 0

namespace QueueSet

variable {α : Type}

/-- Without a comparison, that of the addresses is taken. -/
def queueSetNew (cmp : Option (Nat × Option α → Nat × Option α → Int)) (tail : Nat) : QueueSet α where
  parent := .new tail
  cmp := cmp.getD cmpDefault

def insideFrom (self : QueueSet α) (memory : Memory α) (el : Nat) : Nat → Nat → Option Nat
  | 0, _ => none
  | fuel + 1, current =>
    if current = 0 then some 0
    else
      (memory.nodes current).bind fun node =>
        (memory.see node.data).bind fun e1 =>
          (memory.see el).bind fun e2 =>
            if self.cmp e1 e2 ≠ 0 then some 1 else insideFrom self memory el fuel node.next

def queueSetInside (self : QueueSet α) (fuel : Nat) (memory : Memory α) (el : Nat) : Option Nat :=
  self.insideFrom memory el fuel self.parent.head

/-- The address is the one `malloc` returns for the node. -/
def queueSetAdd (self : QueueSet α) (fuel : Nat) (memory : Memory α) (x el : Nat) :
    Option (Nat × Memory α × QueueSet α) :=
  (self.queueSetInside fuel memory el).bind fun found =>
    if found ≠ 0 then some (0, memory, self)
    else (self.parent.queueAdd memory x el).map fun r => (1, r.1, { self with parent := r.2 })

def queueSetPeek (self : QueueSet α) (memory : Memory α) : Option Nat := self.parent.queuePeek memory

def queueSetPop (self : QueueSet α) (memory : Memory α) : Option (Nat × Memory α × QueueSet α) :=
  (self.parent.queuePop memory).map fun r => (r.1, r.2.1, { self with parent := r.2.2 })

def queueSetForeach (self : QueueSet α) (fuel : Nat) (memory : Memory α) : Option (List Nat) :=
  LinkedVector.foreachFrom memory fuel self.parent.head

def queueSetFree (self : QueueSet α) (fuel : Nat) (memory : Memory α) : Option (Memory α) :=
  LinkedVector.freeFrom fuel memory self.parent.head

end QueueSet

/-- What is called, and what the caller does to objects of its own. -/
inductive QueueSetOp (α : Type)
  | create (x : Nat) (value : α)
  | hold (x : Nat)
  | release (x : Nat)
  | inside (el : Nat)
  | add (x el : Nat)
  | peek
  | pop
  | foreach
  deriving DecidableEq, Repr

/-- The memory, the set, the references the caller has, and what the calls have returned. -/
structure QueueSetRun (α : Type) where
  memory : Memory α
  set : QueueSet α
  held : Nat → Nat
  results : List (List Nat)

namespace QueueSetRun

variable {α : Type}

/-- The reference of what is popped goes over to the caller. -/
def step (fuel : Nat) (self : QueueSetRun α) : QueueSetOp α → Option (QueueSetRun α)
  | .create x value => some { self with
      memory := self.memory.setObject x (some { referenceCount := 0, value := value }) }
  | .hold x => (self.memory.incref x).map fun memory =>
      { self with memory := memory, held := Function.update self.held x (self.held x + 1) }
  | .release x => (self.memory.decref x).map fun memory =>
      { self with memory := memory, held := Function.update self.held x (self.held x - 1) }
  | .inside el => (self.set.queueSetInside fuel self.memory el).map fun found =>
      { self with results := self.results ++ [[found]] }
  | .add x el => (self.set.queueSetAdd fuel self.memory x el).map fun r =>
      { self with memory := r.2.1, set := r.2.2, results := self.results ++ [[r.1]] }
  | .peek => (self.set.queueSetPeek self.memory).map fun x =>
      { self with results := self.results ++ [[x]] }
  | .pop => (self.set.queueSetPop self.memory).map fun r =>
      { memory := r.2.1, set := r.2.2, held := Function.update self.held r.1 (self.held r.1 + 1),
        results := self.results ++ [[r.1]] }
  | .foreach => (self.set.queueSetForeach fuel self.memory).map fun xs =>
      { self with results := self.results ++ [xs] }

/-- What is given is NULL or an object, and the caller gives back no reference it has not,
but for an object to which there is none. -/
def OpOk (self : QueueSetRun α) : QueueSetOp α → Prop
  | .create x _ => self.memory.Fresh x
  | .hold x | .inside x => x ≠ 0 → (self.memory.objects x).isSome = true
  | .release x => x ≠ 0 → (self.memory.objects x).isSome = true ∧
      (0 < self.held x ∨ (self.memory.objects x).map RefObject.referenceCount = some 0)
  | .add x el => self.memory.Fresh x ∧ (el ≠ 0 → (self.memory.objects el).isSome = true)
  | .peek | .pop | .foreach => True

instance OpOk.decidable (self : QueueSetRun α) : (op : QueueSetOp α) → Decidable (OpOk self op)
  | .create x _ => inferInstanceAs (Decidable
      (x ≠ 0 ∧ self.memory.nodes x = none ∧ self.memory.objects x = none))
  | .hold x | .inside x => inferInstanceAs (Decidable (x ≠ 0 → (self.memory.objects x).isSome = true))
  | .release x => inferInstanceAs (Decidable (x ≠ 0 → (self.memory.objects x).isSome = true ∧
      (0 < self.held x ∨ (self.memory.objects x).map RefObject.referenceCount = some 0)))
  | .add x el => inferInstanceAs (Decidable
      ((x ≠ 0 ∧ self.memory.nodes x = none ∧ self.memory.objects x = none) ∧
        (el ≠ 0 → (self.memory.objects el).isSome = true)))
  | .peek | .pop | .foreach => isTrue trivial

end QueueSetRun

/-- A queue without repetitions, with what the caller has and what the objects hold. -/
structure FifoSet (α : Type) where
  elements : List Nat
  held : Nat → Nat
  values : Nat → Option α
  results : List (List Nat)

namespace FifoSet

variable {α : Type} (cmp : Nat × Option α → Nat × Option α → Int)

def Same (values : Nat → Option α) (x y : Nat) : Prop := cmp (y, values y) (x, values x) ≠ 0

instance (values : Nat → Option α) : DecidableRel (Same cmp values) :=
  fun x y => inferInstanceAs (Decidable (cmp (y, values y) (x, values x) ≠ 0))

/-- An object is gone with its last reference. -/
def apply (self : FifoSet α) : QueueSetOp α → FifoSet α
  | .create x value => { self with values := Function.update self.values x (some value) }
  | .hold x => { self with held := Function.update self.held x (self.held x + 1) }
  | .release x => { self with
      held := Function.update self.held x (self.held x - 1)
      values := if self.held x + self.elements.count x ≤ 1 then Function.update self.values x none
        else self.values }
  | .inside el => { self with
      results := self.results ++ [[if Inside (Same cmp self.values) self.elements el then 1 else 0]] }
  | .add _ el => { self with
      elements := insert (Same cmp self.values) self.elements el
      results := self.results ++ [[if Inside (Same cmp self.values) self.elements el then 0 else 1]] }
  | .peek => { self with results := self.results ++ [[self.elements.headD 0]] }
  | .pop => { self with
      elements := self.elements.tail
      held := Function.update self.held (self.elements.headD 0) (self.held (self.elements.headD 0) + 1)
      results := self.results ++ [[self.elements.headD 0]] }
  | .foreach => { self with results := self.results ++ [self.elements] }

/-- What is there of an object: its references are those of the caller and of the queue. -/
def object (self : FifoSet α) (x : Nat) : Option (RefObject α) :=
  (self.values x).map fun value =>
    { referenceCount := self.held x + self.elements.count x, value := value }

end FifoSet

end AutoGentoo
