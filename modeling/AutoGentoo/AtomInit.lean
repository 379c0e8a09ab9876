import AutoGentoo.Atom
import AutoGentoo.Lut

/-! `atom_init`: from the text of a token to the key of a package, its id and
the version. -/

namespace AutoGentoo

open CString

/-- The numbers the enumerations `atom_slot_t` and `atom_block_t` stand for. -/
def AtomSlot.val : AtomSlot → Nat
  | .ignore => 0 | .rebuild => 1

def AtomBlock.val : AtomBlock → Nat
  | .none => 0 | .soft => 1 | .hard => 2

def stringHash (s : Option (List Char)) : Nat := (s.map mapGetHash).getD 0

/-- `PyAtom_hash` before a value is cached; `none` where the text of the version
is NULL. -/
def pyAtomHash (self : Atom) : Option Nat := do
  let versionHash ← match self.version with
    | none => some 0
    | some v => v.fullVersion.map mapGetHash
  let flagHash := (self.useflags.map fun flag => mapGetHash flag.name).sum % 2 ^ 64
  return hashBytes (littleEndian 8 self.id ++ littleEndian 8 versionHash ++
    littleEndian 8 (stringHash self.repository) ++ littleEndian 8 (stringHash self.slot) ++
    littleEndian 8 (stringHash self.subSlot) ++ littleEndian 8 flagHash ++
    littleEndian 4 self.slotOpts.val ++ littleEndian 4 self.range.bits ++
    littleEndian 4 self.blocks.val)

def digitAt (s : List Char) (i : Nat) : Bool := (s[i]?).any Char.isDigit

/-- Where the version begins in the part behind the slash, at its dash. -/
def versionDash (nameIdent : List Char) : Option Nat :=
  match strrchr nameIdent '-' with
  | none => none
  | some lastDash =>
    if digitAt nameIdent (lastDash + 1) then some lastDash
    else if nameIdent[lastDash + 1]? = some 'r' && digitAt nameIdent (lastDash + 2) then
      match strrchr (nameIdent.take lastDash) '-' with
      | some secondDash =>
        if digitAt (nameIdent.take lastDash) (secondDash + 1) then some secondDash else none
      | none => none
    else none

inductive AtomError
  | invalid | nullVersion
  deriving DecidableEq, Repr

def atomInit (packages : Lut) (input : List Char) : Except AtomError Atom :=
  match strchr input '/' with
  | none => .error .invalid
  | some catSplt =>
    let category := input.take catSplt
    let nameIdent := input.drop (catSplt + 1)
    let verSplt := versionDash nameIdent
    let name := match verSplt with
      | some i => nameIdent.take i
      | none => nameIdent
    let key := category ++ '/' :: name
    let found := Lut.lutGetId packages key
    let self : Atom :=
      { id := found.1
        idFlag := found.2
        cachedHash := 0
        category := category
        name := name
        key := key
        repository := none
        slot := none
        subSlot := none
        slotOpts := .ignore
        range := .all
        blocks := .none
        version := verSplt.map fun i => atomVersionInit (nameIdent.drop (i + 1))
        useflags := [] }
    match pyAtomHash self with
    | none => .error .nullVersion
    | some h => .ok { self with cachedHash := h }

/-- The id an atom carries is the one its key had in the table at that time. -/
theorem atomInit_id {packages : Lut} {input : List Char} {atom : Atom}
    (h : atomInit packages input = .ok atom) :
    Lut.lutGetId packages atom.key = (atom.id, atom.idFlag) := by
  unfold atomInit at h
  split at h
  · exact absurd h (by simp)
  · simp only at h
    split at h
    · exact absurd h (by simp)
    · rw [Except.ok.injEq] at h
      rw [← h]

theorem pyAtomHash_eq_none {self : Atom} :
    pyAtomHash self = none ↔ ∃ v, self.version = some v ∧ v.fullVersion = none := by
  cases hv : self.version with
  | none => simp [pyAtomHash, hv]
  | some v => cases hf : v.fullVersion <;> simp [pyAtomHash, hv, hf]

/-- The atom of a text, but for its id. -/
def atomFields (input : List Char) : Option Atom :=
  (strchr input '/').map fun catSplt =>
    let nameIdent := input.drop (catSplt + 1)
    let verSplt := versionDash nameIdent
    let name := match verSplt with
      | some i => nameIdent.take i
      | none => nameIdent
    { id := 0
      idFlag := 0
      cachedHash := 0
      category := input.take catSplt
      name := name
      key := input.take catSplt ++ '/' :: name
      repository := none
      slot := none
      subSlot := none
      slotOpts := .ignore
      range := .all
      blocks := .none
      version := verSplt.map fun i => atomVersionInit (nameIdent.drop (i + 1))
      useflags := [] }

def Atom.withId (self : Atom) (found : Nat × Nat) : Atom :=
  { self with id := found.1, idFlag := found.2 }

def Atom.hashed (self : Atom) : Except AtomError Atom :=
  match pyAtomHash self with
  | none => .error .nullVersion
  | some h => .ok { self with cachedHash := h }

theorem Atom.hashed_key {self atom : Atom} (h : self.hashed = .ok atom) : atom.key = self.key := by
  rw [hashed] at h
  split at h
  · exact absurd h (by simp)
  · obtain rfl := Except.ok.inj h
    rfl

theorem Atom.hashed_error {self : Atom} {e : AtomError} (h : self.hashed = .error e) :
    e = .nullVersion ∧ ∃ v, self.version = some v ∧ v.fullVersion = none := by
  rw [hashed] at h
  split at h
  · next hnone => exact ⟨(Except.error.inj h).symm, pyAtomHash_eq_none.mp hnone⟩
  · exact absurd h (by simp)

theorem Atom.hashed_nullVersion {self : Atom} (h : ∃ v, self.version = some v ∧ v.fullVersion = none) :
    self.hashed = .error .nullVersion := by
  rw [hashed, pyAtomHash_eq_none.mpr h]

theorem atomInit_eq (lut : Lut) (input : List Char) : atomInit lut input =
    match atomFields input with
    | none => .error .invalid
    | some atom => (atom.withId (Lut.lutGetId lut atom.key)).hashed := by
  rw [atomInit, atomFields]
  cases strchr input '/' <;> rfl

example : (atomInit (Lut.lutNew 4) "cat/pkg-1.2.34-r1".toList).toOption.map
    (fun atom => (atom.key, atom.version.bind AtomVersion.fullVersion)) =
      some ("cat/pkg".toList, some "1.2.34-r1".toList) := by decide

end AutoGentoo
