import AutoGentoo.Dependency
import AutoGentoo.Portage

/-! The selection of ebuilds: `select_atom`, `match_atom`, `add_atom` and
`change_within_slot`. -/

namespace AutoGentoo

/-- The hooks of a selected ebuild, which is the parent of each. -/
inductive Hookable
  | useSelection (useFlag : UseFlag) (flag : AtomUse) (targetValue enforcing : Bool)
  | requiredUse (expression : UseTree)
  | useConditional (useflag : UseFlag) (dependency : DependTree) (required isDirty : Bool)
  deriving DecidableEq, Repr

/-- An entry of `generators` or `resolved_deps`, with the atom it was selected
for, which the code does not keep. -/
structure Generator where
  atom : Atom
  sel : Nat
  deriving DecidableEq, Repr

structure SelectedEbuild where
  selectedBy : Dict Atom (Option Nat)
  ebuild : Ebuild
  useflags : Dict (List Char) UseFlag
  useFlagHooks : Dict (List Char) (List Hookable)
  globalFlagHooks : List Hookable
  flags : List UseFlag
  generators : DependencyContainer Generator
  resolvedDeps : DependencyContainer Generator
  isDirty : Bool
  deriving DecidableEq, Repr

def SelectedEbuild.init (parent : Option Nat) (atom : Atom) (ebuild : Ebuild) : SelectedEbuild where
  selectedBy := Dict.set [] atom parent
  ebuild := ebuild
  useflags := []
  useFlagHooks := []
  globalFlagHooks := []
  flags := []
  generators := .empty
  resolvedDeps := .empty
  isDirty := true

structure InstallPackage where
  key : List Char
  selectedEbuildSlots : Dict (Option (List Char)) Nat
  deriving DecidableEq, Repr

/-- The Emerge object with all it leads to. `globals` has the table of flags,
`cache` the cache file of each ebuild and `read` the ebuilds whose file has been
read; `selected` are the SelectedEbuild objects made so far. -/
structure Emerge where
  portage : Portage
  globals : UseHeap
  cache : Nat → CacheFile
  read : List Nat
  selected : List SelectedEbuild
  selectedPackages : Dict (List Char) InstallPackage
  blocks : Dict (List Char) (List Atom)
  resolveSession : List Nat

/-- How a call ends other than by returning. -/
inductive Stop
  | raised (e : PyError)
  | diverged
  | aborted
  deriving Repr

abbrev Call (α : Type) := StateT Emerge (Except Stop) α

namespace Emerge

def init (portage : Portage) (globals : UseHeap) (cache : Nat → CacheFile) (read : List Nat) :
    Emerge where
  portage := portage
  globals := globals
  cache := cache
  read := read
  selected := []
  selectedPackages := []
  blocks := []
  resolveSession := []

/-- The fields of an ebuild that come from its cache file. -/
def metadata (self : Emerge) (ebuild : Ebuild) : Metadata :=
  if ebuild.addr ∈ self.read then (self.cache ebuild.addr).fields else .blank

def slot (self : Emerge) (ebuild : Ebuild) : Option (List Char) := (self.metadata ebuild).slot

def metadataInit (self : Emerge) (ebuild : Ebuild) : Bool :=
  ebuild.addr ∈ self.read && (self.cache ebuild.addr).ok

/-- The package an ebuild has been added to. -/
def package (self : Emerge) (ebuild : Ebuild) : Option Package :=
  self.portage.objects.find? fun p => p.ebuilds.any fun e => e.addr = ebuild.addr

/-- `ebuild_metadata_init`; what was read before an error stays. -/
def readMetadata (self : Emerge) (ebuild : Ebuild) : Emerge :=
  { self with read := ebuild.addr :: self.read }

end Emerge

/-- `Atom.matches` -/
def matchesEbuild (atom : Atom) (ebuild : Ebuild) : Except Stop Bool :=
  match atomMatches atom ebuild with
  | some b => .ok b
  | none => .error .aborted

/-- The loop over `selected_by` in `change_within_slot`; the answer for the new
atom comes in as `allMatch`. -/
def prevAtomsMatch (ebuild : Ebuild) (allMatch : Bool) : List Atom → Except Stop Bool
  | [] => .ok allMatch
  | prevAtom :: rest =>
    (matchesEbuild prevAtom ebuild).bind fun m =>
      if m then prevAtomsMatch ebuild m rest else .ok false

/-- The `for` statement over a package, for so many turns; `none` where it has
not left it by then. -/
def searchTurns (test : Ebuild → Except Stop Bool) (iterator : List Ebuild) :
    Nat → Except Stop (Option (Option Ebuild))
  | 0 => .ok none
  | n + 1 =>
    match Package.ebuildNext iterator with
    | [] => .ok (some none)
    | ebuild :: _ =>
      (test ebuild).bind fun m => if m then .ok (some (some ebuild)) else searchTurns test iterator n

theorem searchTurns_stuck {test : Ebuild → Except Stop Bool} {iterator : List Ebuild}
    (h : searchTurns test iterator 1 = .ok none) (n : Nat) :
    searchTurns test iterator n = .ok none := by
  induction n with
  | zero => rfl
  | succ n ih =>
    rw [searchTurns] at h ⊢
    cases hn : Package.ebuildNext iterator with
    | nil => simp [hn] at h
    | cons ebuild older =>
      rw [hn] at h
      cases ht : test ebuild with
      | error e => simp [ht, Except.bind] at h
      | ok m =>
        cases m with
        | true => simp [ht, Except.bind] at h
        | false => simpa [ht, Except.bind] using ih

/-- A first turn without an answer is repeated for ever, as `searchTurns_stuck`
says. -/
def search (test : Ebuild → Except Stop Bool) (iterator : List Ebuild) :
    Except Stop (Option Ebuild) :=
  (searchTurns test iterator 1).bind fun found =>
    match found with
    | some ebuildMatch => .ok ebuildMatch
    | none => .error .diverged

/-- What a `for` statement over a package finds, from the iterator. -/
abbrev ForLoop := (Ebuild → Except Stop Bool) → List Ebuild → Except Stop (Option Ebuild)

/-- `change_within_slot` of the object at an address, with what iterating the
package does as a parameter. -/
def changeWithinSlotOver (loop : ForLoop) (sel : Nat) (atom : Atom) : Call Bool := fun self =>
  match self.selected[sel]? with
  | none => .error (.raised .systemError)
  | some selected =>
    match self.package selected.ebuild with
    | none => .error (.raised .typeError)
    | some package =>
      if package.iter = [] then .error (.raised .systemError)
      else
        (loop (fun ebuild => (matchesEbuild atom ebuild).bind fun allMatch =>
          prevAtomsMatch ebuild allMatch (selected.selectedBy.map Prod.fst)) package.iter).map
            fun ebuildMatch =>
              match ebuildMatch with
              | none => (false, self)
              | some ebuild => (true, { self with
                  selected := self.selected.set sel { selected with
                    ebuild := ebuild
                    isDirty := true } })

def changeWithinSlot : Nat → Atom → Call Bool := changeWithinSlotOver search

namespace InstallPackage

/-- The first selected ebuild that the atom matches, in the order of the slots. -/
def firstMatch (self : Emerge) (atom : Atom) :
    Dict (Option (List Char)) Nat → Except Stop (Option Nat)
  | [] => .ok none
  | (_, sel) :: rest =>
    match self.selected[sel]? with
    | none => .error (.raised .systemError)
    | some selected =>
      (matchesEbuild atom selected.ebuild).bind fun m =>
        if m then .ok (some sel) else firstMatch self atom rest

/-- The package is the value of the dictionary of packages at a key. -/
def addAtom (pkg : InstallPackage) (key : List Char) (parent : Option Nat) (atom : Atom)
    (ebuild : Ebuild) : Call Nat := fun self =>
  .ok (self.selected.length, { self with
    selected := self.selected ++ [SelectedEbuild.init parent atom ebuild]
    selectedPackages := Dict.set self.selectedPackages key { pkg with
      selectedEbuildSlots :=
        Dict.set pkg.selectedEbuildSlots (self.slot ebuild) self.selected.length } })

def matchAtomOver (loop : ForLoop) (pkg : InstallPackage) (key : List Char) (parent : Option Nat)
    (atom : Atom) (ebuild : Ebuild) : Call (Option Nat) := fun self =>
  (firstMatch self atom pkg.selectedEbuildSlots).bind fun found =>
    match found, self.slot ebuild with
    | some sel, _ => .ok (some sel, self)
    | none, none => .ok (none, self)
    | none, some slot =>
      match Dict.get pkg.selectedEbuildSlots (some slot) with
      | none =>
        (firstMatch self atom pkg.selectedEbuildSlots).bind fun found =>
          match found with
          | some sel => .ok (some sel, self)
          | none => (pkg.addAtom key parent atom ebuild self).map fun r => (some r.1, r.2)
      | some sel =>
        match self.selected[sel]? with
        | none => .error (.raised .systemError)
        | some selEbuild =>
          (matchesEbuild atom selEbuild.ebuild).bind fun m =>
            if m then .ok (some sel, self)
            else (changeWithinSlotOver loop sel atom self).bind fun r =>
              if r.1 then .ok (some sel, r.2) else .error (.raised .notImplemented)

def matchAtom (pkg : InstallPackage) (key : List Char) (parent : Option Nat) (atom : Atom)
    (ebuild : Ebuild) : Call (Option Nat) := matchAtomOver search pkg key parent atom ebuild

end InstallPackage

def selectAtomOver (loop : ForLoop) (parent : Option Nat) (atom : Atom) : Call (Option Nat) := fun self =>
  match self.portage.matchAtom atom with
  | none => .error .aborted
  | some (.error _) => .error (.raised (.keyError (some atom.key)))
  | some (.ok none) => .error (.raised (.resolution (some atom.key)))
  | some (.ok (some ebuild)) =>
    match Dict.get self.selectedPackages ebuild.packageKey with
    | some installPkg => installPkg.matchAtomOver loop ebuild.packageKey parent atom ebuild self
    | none =>
      let pkg : InstallPackage := { key := atom.key, selectedEbuildSlots := [] }
      (pkg.addAtom pkg.key parent atom ebuild self).map fun r => (some r.1, r.2)

def selectAtom : Option Nat → Atom → Call (Option Nat) := selectAtomOver search

end AutoGentoo
