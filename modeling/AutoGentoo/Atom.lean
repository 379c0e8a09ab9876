import AutoGentoo.AtomVersion

/-! Atoms and ebuilds, and the test `atom_matches` of one against the other. -/

namespace AutoGentoo

/-- The values of `atom_version_t` that the grammar assigns. -/
inductive AtomRange
  | e | l | g | rev | all | ge | le
  deriving DecidableEq, Repr

namespace AtomRange

/-- The positions in `atom_version_t`. -/
def maskE : Nat := 0x1
def maskL : Nat := 0x2
def maskG : Nat := 0x4

def bits : AtomRange → Nat
  | e => maskE
  | l => maskL
  | g => maskG
  | rev => maskE ||| 0x8
  | all => maskE ||| maskL ||| maskG
  | ge => maskE ||| maskG
  | le => maskL ||| maskE

def has (r : AtomRange) (mask : Nat) : Bool := r.bits &&& mask != 0

end AtomRange

/-- `atom_block_t` -/
inductive AtomBlock
  | none | soft | hard
  deriving DecidableEq, Repr

/-- `atom_slot_t` -/
inductive AtomSlot
  | ignore | rebuild
  deriving DecidableEq, Repr

/-- `atom_use_t` -/
inductive AtomUse
  | disable | enable | enableIfOn | disableIfOff | equal | opposite
  deriving DecidableEq, Repr

/-- `atom_use_default_t` -/
inductive AtomUseDefault
  | none | on | off
  deriving DecidableEq, Repr

structure AtomFlag where
  name : List Char
  option : AtomUse
  dflt : AtomUseDefault
  deriving DecidableEq, Repr

/-- `id` is the number under which the package table knows the key, `idFlag`
whether it did when the atom was made. -/
structure Atom where
  id : Nat
  idFlag : Nat
  cachedHash : Nat
  category : List Char
  name : List Char
  key : List Char
  repository : Option (List Char)
  slot : Option (List Char)
  subSlot : Option (List Char)
  slotOpts : AtomSlot
  range : AtomRange
  blocks : AtomBlock
  version : Option AtomVersion
  useflags : List AtomFlag
  deriving DecidableEq, Repr

/-- The part of an ebuild that `ebuild_init` sets for good, with the address
of the object. -/
structure Ebuild where
  addr : Nat
  name : List Char
  category : List Char
  packageId : Nat
  key : List Char
  packageKey : List Char
  cacheFile : List Char
  version : Option AtomVersion
  deriving DecidableEq, Repr

def atomMatches (atom : Atom) (target : Ebuild) : Option Bool :=
  if atom.key ≠ target.packageKey then some false
  else
    (atomVersionCompare atom.version target.version).map fun versionCompare =>
      if versionCompare = 0 then atom.range.has AtomRange.maskE
      else if 0 < versionCompare then atom.range.has AtomRange.maskL
      else atom.range.has AtomRange.maskG

end AutoGentoo
