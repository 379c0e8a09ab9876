import AutoGentoo.GuardedRun
import AutoGentoo.Ownership
import Mathlib.Data.List.ReduceOption

/-! The objects of the extension module with the references they own, as the deallocators
give them back, and what is done to them: they are made, held, let go, put into a package
and filled from a cache file. -/

namespace AutoGentoo

open Ownership

/-- The references of an Ebuild besides `older`. -/
inductive EbuildField
  | depend
  | bdepend
  | rdepend
  | pdepend
  | iuse
  | requiredUse
  | srcUri
  | version
  deriving DecidableEq, Repr

/-- In the order of `PyEbuild_dealloc`. -/
def EbuildField.all : List EbuildField :=
  [depend, bdepend, rdepend, pdepend, iuse, requiredUse, srcUri, version]

/-- The `package` of an ebuild is not a reference it owns. -/
inductive PyValue
  | package (ebuilds : Option Nat)
  | ebuild (package older : Option Nat) (fields : EbuildField → Option Nat)
  | dependency (atom next children : Option Nat)
  | requiredUse (next depend : Option Nat)
  | atom (useflags version : Option Nat)
  | atomFlag (next : Option Nat)
  | atomVersion (next : Option Nat)
  | useFlag
  | dict

namespace PyValue

/-- What the deallocator of the type releases, in its order. -/
def owned : PyValue → List Nat
  | package ebuilds => [ebuilds].reduceOption
  | ebuild _ older fields => (older :: EbuildField.all.map fields).reduceOption
  | dependency leaf next children => [leaf, next, children].reduceOption
  | requiredUse next depend => [next, depend].reduceOption
  | atom useflags version => [useflags, version].reduceOption
  | atomFlag next | atomVersion next => [next].reduceOption
  | useFlag | dict => []

/-- Neither a Package nor an Ebuild. -/
def isPart : PyValue → Bool
  | package _ | ebuild _ _ _ => false
  | dependency _ _ _ | requiredUse _ _ | atom _ _ | atomFlag _ | atomVersion _ | useFlag | dict => true

end PyValue

/-- The objects, and the references that none of them owns. -/
structure PyRun where
  heap : Heap PyValue
  held : Nat → Nat

namespace PyRun

def empty : PyRun := { heap := [], held := fun _ => 0 }

/-- The loop of `add_ebuild`, with so many turns at most; there is no place for an ebuild
that is met, which raises. -/
def walk (newer : Nat → Nat → Bool) (heap : Heap PyValue) (ebuild : Nat) :
    Nat → Option Nat → Option Nat → Option (Option (Option Nat × Option Nat))
  | 0, _, _ => none
  | _ + 1, last, none => some (some (last, none))
  | fuel + 1, last, some current =>
    if ebuild = current then some none
    else
      match heap.object current with
      | some ⟨_, .ebuild _ older _⟩ =>
        if newer ebuild current then some (some (last, some current))
        else walk newer heap ebuild fuel (some current) older
      | _ => none

/-- The link to the ebuild: the head of the package, or `older` of the last one passed. -/
def linkFrom (heap : Heap PyValue) (pkg ebuild : Nat) : Option Nat → Option (Heap PyValue)
  | none =>
    match heap.object pkg with
    | some ⟨count, .package _⟩ => some (heap.write pkg (some ⟨count, .package (some ebuild)⟩))
    | _ => none
  | some last =>
    match heap.object last with
    | some ⟨count, .ebuild package _ fields⟩ =>
      some (heap.write last (some ⟨count, .ebuild package (some ebuild) fields⟩))
    | _ => none

/-- The links of the ebuild, and the reference to it that is taken. -/
def linkTo (heap : Heap PyValue) (pkg ebuild : Nat) (current : Option Nat) : Option (Heap PyValue) :=
  match heap.object ebuild with
  | some ⟨count, .ebuild _ _ fields⟩ =>
    some (heap.write ebuild (some ⟨count + 1, .ebuild (some pkg) current fields⟩))
  | _ => none

/-- `Package.add_ebuild` on a Package and an Ebuild, where `newer` tells of two ebuilds
whether the version of the first is greater. -/
def addEbuild (newer : Nat → Nat → Bool) (heap : Heap PyValue) (pkg ebuild : Nat) : Option (Heap PyValue) :=
  match heap.object pkg, heap.object ebuild with
  | some ⟨_, .package ebuilds⟩, some ⟨_, .ebuild package _ _⟩ =>
    if package.isSome then some heap
    else
      (walk newer heap ebuild (heap.length + 1) none ebuilds).bind fun place =>
        match place with
        | none => some heap
        | some (last, current) => (linkFrom heap pkg ebuild last).bind fun heap => linkTo heap pkg ebuild current
  | _, _ => none

/-- The field of an ebuild that is not set yet. -/
def assign (heap : Heap PyValue) (ebuild : Nat) (field : EbuildField) (x : Nat) : Option (Heap PyValue) :=
  match heap.object ebuild with
  | some ⟨count, .ebuild package older fields⟩ =>
    some (heap.write ebuild (some ⟨count, .ebuild package older (Function.update fields field (some x))⟩))
  | _ => none

/-- `ebuild.package` read from Python. -/
def getPackage (heap : Heap PyValue) (ebuild : Nat) : Option (Option Nat × Heap PyValue) :=
  match heap.object ebuild with
  | some ⟨_, .ebuild (some pkg) _ _⟩ => (incref heap pkg).map fun heap => (some pkg, heap)
  | some ⟨_, .ebuild none _ _⟩ => some (none, heap)
  | _ => none

end PyRun

/-- `build` makes an object of references that are given to it, `setField` gives one to an
ebuild. -/
inductive PyOp
  | build (value : PyValue)
  | incref (x : Nat)
  | decref (x : Nat)
  | addEbuild (pkg ebuild : Nat)
  | setField (ebuild : Nat) (field : EbuildField) (x : Nat)
  | getPackage (ebuild : Nat)

namespace PyRun

/-- A release goes no deeper than there are objects. -/
def step (newer : Nat → Nat → Bool) (self : PyRun) : PyOp → Option PyRun
  | .build value => some
      { heap := self.heap ++ [some ⟨1, value⟩]
        held := fun x => self.held x - value.owned.count x + [self.heap.length].count x }
  | .incref x => (incref self.heap x).map fun heap =>
      { heap := heap, held := fun y => self.held y + [x].count y }
  | .decref x => (decref PyValue.owned self.heap.live self.heap x).map fun heap =>
      { heap := heap, held := fun y => self.held y - [x].count y }
  | .addEbuild pkg ebuild => (addEbuild newer self.heap pkg ebuild).map fun heap => { self with heap := heap }
  | .setField ebuild field x => (assign self.heap ebuild field x).map fun heap =>
      { heap := heap, held := fun y => self.held y - [x].count y }
  | .getPackage ebuild => (getPackage self.heap ebuild).map fun r =>
      { heap := r.2, held := fun y => self.held y + r.1.toList.count y }

/-- An object that is neither a Package nor an Ebuild. -/
def Part (heap : Heap PyValue) (x : Nat) : Prop := ∃ object, heap.object x = some object ∧ object.value.isPart = true

/-- Objects are made of parts, a Package and an Ebuild without a place. -/
def Fresh (heap : Heap PyValue) : PyValue → Prop
  | .package ebuilds => ebuilds = none
  | .ebuild package older fields => package = none ∧ older = none ∧ ∀ field, ∀ x ∈ fields field, Part heap x
  | value => ∀ x ∈ value.owned, Part heap x

/-- What is given away is held, what is named is of the type that the code checks, and a
package that is asked for is still held. -/
def OpOk (self : PyRun) : PyOp → Prop
  | .build value => (∀ x, value.owned.count x ≤ self.held x) ∧ Fresh self.heap value
  | .incref x => (self.heap.object x).isSome = true
  | .decref x => 0 < self.held x
  | .addEbuild pkg ebuild =>
    (∃ count ebuilds, self.heap.object pkg = some ⟨count, .package ebuilds⟩) ∧ 0 < self.held ebuild ∧
      ∃ count package older fields, self.heap.object ebuild = some ⟨count, .ebuild package older fields⟩
  | .setField ebuild field x =>
    (∃ count package older fields, self.heap.object ebuild = some ⟨count, .ebuild package older fields⟩ ∧
      fields field = none) ∧ 0 < self.held x ∧ Part self.heap x
  | .getPackage ebuild => ∃ count package older fields,
      self.heap.object ebuild = some ⟨count, .ebuild package older fields⟩ ∧ ∀ pkg ∈ package, 0 < self.held pkg

end PyRun

end AutoGentoo
