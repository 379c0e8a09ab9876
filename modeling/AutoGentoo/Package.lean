import AutoGentoo.AtomMatch

/-! The package object: the chain of its ebuilds, `add_ebuild`, `match_atom`
and the iterator it hands to a `for` statement. -/

namespace AutoGentoo

/-- `ebuilds` follows the links `older` from the head. -/
structure Package where
  packageId : Nat
  category : List Char
  name : List Char
  key : List Char
  ebuilds : List Ebuild
  deriving DecidableEq, Repr

inductive AddEbuildError
  | alreadyAdded | sameEbuild
  deriving DecidableEq, Repr

open VersionText

namespace Package

/-- The walk of `add_ebuild`, up to the first ebuild that is older. -/
def addLoop (ebuild : Ebuild) : List Ebuild → Option (Except AddEbuildError (List Ebuild))
  | [] => some (.ok [ebuild])
  | current :: older =>
    if ebuild.addr = current.addr then some (.error .sameEbuild)
    else do
      let compare ← atomVersionCompare ebuild.version current.version
      if 0 < compare then return .ok (ebuild :: current :: older)
      return (← addLoop ebuild older).map (current :: ·)

/-- `owned` says that the ebuild has a package already. -/
def addEbuild (self : Package) (ebuild : Ebuild) (owned : Bool) :
    Option (Except AddEbuildError Package) :=
  if owned then some (.error .alreadyAdded)
  else (addLoop ebuild self.ebuilds).map fun r => r.map fun es => { self with ebuilds := es }

def passes (range : AtomRange) (compare : Int) : Bool :=
  compare == 0 && range.has AtomRange.maskE || (0 < compare && range.has AtomRange.maskG) ||
    (compare < 0 && range.has AtomRange.maskL)

def matchLoop (atom : Atom) : List Ebuild → Option (Option Ebuild)
  | [] => some none
  | current :: older => do
    let compare ← atomVersionCompare current.version atom.version
    if passes atom.range compare then return some current
    if 0 < compare && !atom.range.has AtomRange.maskL then return none
    matchLoop atom older

def matchAtom (self : Package) (atom : Atom) : Option (Option Ebuild) :=
  matchLoop atom self.ebuilds

/-- `1.0` -/
def foo10 : VersionText where
  first := Digits.of "1"
  more := [Digits.of "0"]
  letter := none
  suffixes := []
  revision := none

/-- `2.0` -/
def foo20 : VersionText := { foo10 with first := Digits.of "2" }

/-- `app-misc/foo` with the given chain. -/
def fooPackage (ebuilds : List Ebuild) : Package where
  packageId := 0
  category := "app-misc".toList
  name := "foo".toList
  key := "app-misc/foo".toList
  ebuilds := ebuilds

/-- What `PyPackage_iter` returns: the head of the chain, itself the iterator. -/
def iter (self : Package) : List Ebuild := self.ebuilds

/-- `PyEbuild_next`, the chain behind the ebuild it is called on. -/
def ebuildNext : List Ebuild → List Ebuild
  | [] => []
  | _ :: older => older

/-- A `for` statement: the error that a NULL iterator raises, the values seen
so far, or all values once it has stopped. -/
inductive ForState
  | raised
  | running (seen : List Ebuild)
  | stopped (seen : List Ebuild)
  deriving DecidableEq, Repr

def forStart (self : Package) : ForState :=
  match self.iter with
  | [] => .raised
  | _ :: _ => .running []

def forStep (iterator : List Ebuild) : ForState → ForState
  | .running seen =>
    match ebuildNext iterator with
    | [] => .stopped seen
    | e :: _ => .running (seen ++ [e])
  | s => s

/-- After `n` requests for a next value. -/
def forRun (self : Package) : Nat → ForState
  | 0 => self.forStart
  | n + 1 => forStep self.iter (forRun self n)

theorem forRun_empty {self : Package} (h : self.ebuilds = []) (n : Nat) :
    forRun self n = .raised := by
  induction n with
  | zero => simp [forRun, forStart, iter, h]
  | succ n ih => simp [forRun, ih, forStep]

theorem forRun_one {self : Package} {e : Ebuild} (h : self.ebuilds = [e]) (n : Nat) :
    forRun self (n + 1) = .stopped [] := by
  induction n with
  | zero => simp [forRun, forStart, forStep, iter, ebuildNext, h]
  | succ n ih =>
    rw [forRun, ih]
    rfl

/-- The cursor never moves: the second ebuild comes again and again. -/
theorem forRun_more {self : Package} {e e' : Ebuild} {es : List Ebuild}
    (h : self.ebuilds = e :: e' :: es) (n : Nat) :
    forRun self n = .running (List.replicate n e') := by
  induction n with
  | zero => simp [forRun, forStart, iter, h]
  | succ n ih => simp [forRun, ih, forStep, iter, ebuildNext, h, List.replicate_succ']

/-- On no package does a `for` statement yield the ebuilds of the chain and
stop. -/
theorem forRun_ne_all (self : Package) : ¬ ∃ n, forRun self n = .stopped self.ebuilds := by
  rintro ⟨n, hn⟩
  cases h : self.ebuilds with
  | nil => simp [forRun_empty h] at hn
  | cons e es =>
    cases es with
    | cons e' es => simp [forRun_more h] at hn
    | nil =>
      cases n with
      | zero => simp [forRun, forStart, iter, h] at hn
      | succ n => simp [forRun_one h, h] at hn

theorem forRun_single_empty :
    forRun (fooPackage [fooEbuild 1 foo10]) 1 = .stopped [] ∧
      ¬ ∀ self, ∃ n, forRun self n = .stopped self.ebuilds := by
  refine ⟨rfl, fun hall => ?_⟩
  obtain ⟨n, hn⟩ := hall (fooPackage [fooEbuild 1 foo10])
  cases n with
  | zero => exact absurd hn (by decide)
  | succ n =>
    rw [forRun_one rfl] at hn
    exact absurd hn (by decide)

end Package

end AutoGentoo
