import AutoGentoo.AtomInit
import AutoGentoo.Package

/-! The Portage object: its table of packages, `add_package`, `match_atom`, and
the reading of a repository. A failed assertion or a NULL string is `none`. -/

namespace AutoGentoo

/-- A cache file as `initialize_repository` meets it, with what `realpath` finds. -/
structure RepoFile where
  category : List Char
  nameAndVersion : List Char
  ebuildFound : Bool
  cacheFile : Option (List Char)
  deriving DecidableEq, Repr

inductive PortageError
  | fileNotFound
  | systemError
  | keyError (key : List Char)
  | runtimeError (e : AddEbuildError)
  deriving DecidableEq, Repr

/-- The table holds addresses of objects, counted from 1. `made` is the number
of ebuilds made so far. -/
structure Portage where
  packages : Lut
  objects : List Package
  made : Nat
  deriving DecidableEq, Repr

/-- `ebuild_init` for a new object, with the flag that came with the id. -/
def ebuildInit (packages : Lut) (addr : Nat) (file : RepoFile) :
    Option (Except PortageError (Ebuild × Nat)) :=
  let key := file.category ++ '/' :: file.nameAndVersion
  match atomInit packages key with
  | .error _ => none
  | .ok atom =>
    if atom.version.isNone then none
    else if !file.ebuildFound then some (.error .fileNotFound)
    else match file.cacheFile with
      | none => some (.error .fileNotFound)
      | some path =>
        some (.ok ({
          addr := addr
          name := atom.name
          category := atom.category
          packageId := atom.id
          key := key
          packageKey := atom.key
          cacheFile := path
          version := atom.version }, atom.idFlag))

namespace Portage

/-- `PORTAGE_INITIAL_PKG_LUT_SIZE` -/
def initialSize : Nat := 512

def init : Portage := { packages := Lut.lutNew initialSize, objects := [], made := 0 }

def deref (self : Portage) (address : Nat) : Option Package :=
  match address with
  | 0 => none
  | a + 1 => self.objects[a]?

def store (self : Portage) (address : Nat) (package : Package) : Portage :=
  { self with objects := self.objects.set (address - 1) package }

def splitKey (key : List Char) : Option (List Char × List Char) :=
  (CString.strchr key '/').map fun i => (key.take i, key.drop (i + 1))

/-- A new package object; without a slash the split is NULL. -/
def newPackage (self : Portage) (key : List Char) (packageId : Nat) : Option (Portage × Nat) :=
  (splitKey key).map fun split =>
    ({ self with
      objects := self.objects ++ [{
        packageId := packageId
        category := split.1
        name := split.2
        key := key
        ebuilds := [] }] }, self.objects.length + 1)

def addPackage (self : Portage) (address : Nat) : Option Portage := do
  let pkg ← self.deref address
  let (lut, id) ← Lut.lutInsert self.packages pkg.key address lutFlagPython
  return { self with packages := lut }.store address { pkg with packageId := id }

/-- `Package.add_ebuild` on the object at an address. -/
def addEbuildAt (self : Portage) (address : Nat) (ebuild : Ebuild) (owned : Bool) :
    Option (Except PortageError Portage) := do
  let pkg ← self.deref address
  match ← pkg.addEbuild ebuild owned with
  | .ok pkg' => return .ok (self.store address pkg')
  | .error e => return .error (.runtimeError e)

def matchAtom (self : Portage) (atom : Atom) : Option (Except PortageError (Option Ebuild)) :=
  match self.deref (Lut.lutGet self.packages atom.id) with
  | none => some (.error (.keyError atom.key))
  | some pkg => (pkg.matchAtom atom).map .ok

/-- The package the ebuild belongs to, made where the table does not have it. -/
def packageFor (self : Portage) (ebuild : Ebuild) (flags : Nat) :
    Option (Except PortageError (Portage × Nat)) :=
  if flags &&& lutFlagNotFound ≠ 0 then do
    let (self, address) ← self.newPackage ebuild.packageKey ebuild.packageId
    let lut ← Lut.lutInsertId self.packages ebuild.packageKey address ebuild.packageId
      (lutFlagNotFound ||| lutFlagPython)
    return .ok ({ self with packages := lut }, address)
  else
    let address := Lut.lutGet self.packages ebuild.packageId
    if (self.deref address).isNone then some (.error .systemError) else some (.ok (self, address))

/-- One file of the inner loop; the answer of `add_ebuild` is not looked at. -/
def initializeFile (self : Portage) (file : RepoFile) :
    Option (Except PortageError Portage) := do
  match ← ebuildInit self.packages (self.made + 1) file with
  | .error e => return .error e
  | .ok (ebuild, flags) =>
    match ← packageFor { self with made := self.made + 1 } ebuild flags with
    | .error e => return .error e
    | .ok (self, address) =>
      match ← self.addEbuildAt address ebuild false with
      | .ok self => return .ok self
      | .error _ => return .ok self

/-- The files in the order `readdir` gives them; what was done before an error
stays. -/
def initializeRepository (self : Portage) : List RepoFile → Option Portage
  | [] => some self
  | file :: files => do
    match ← self.initializeFile file with
    | .ok self => initializeRepository self files
    | .error _ => return self

end Portage

end AutoGentoo
