import AutoGentoo.Emerge
import AutoGentoo.PackageMatch

/-! The ways a call of `select_atom` can go, and what of the repository and of the tables
decides which. -/

namespace AutoGentoo

open Scan

/-- Which way `select_atom` goes. -/
inductive Way
  | raises
  | aborts
  | reuses (sel : Nat)
  | unknownSlot
  | creates (key : List Char) (pkg : InstallPackage) (ebuild : Ebuild)
  | changes (sel : Nat) (candidate : Ebuild)
  deriving DecidableEq, Repr

namespace Emerge

/-- The ebuild the `for` statement of `change_within_slot` meets. -/
def candidate (self : Emerge) (sel : Nat) : Option Ebuild :=
  (self.selected[sel]?).bind fun selected =>
    (self.package selected.ebuild).bind fun package => (Package.ebuildNext package.iter).head?

/-- The way for a package that has been selected. -/
def packageWay (self : Emerge) (atom : Atom) (pkg : InstallPackage) (ebuild : Ebuild) : Way :=
  match InstallPackage.firstMatch self atom pkg.selectedEbuildSlots with
  | .error (.raised _) => .raises
  | .error _ => .aborts
  | .ok (some sel) => .reuses sel
  | .ok none =>
    match self.slot ebuild with
    | none => .unknownSlot
    | some slot =>
      match Dict.get pkg.selectedEbuildSlots (some slot) with
      | none => .creates ebuild.packageKey pkg ebuild
      | some sel =>
        match self.candidate sel with
        | none => .raises
        | some candidate => .changes sel candidate

def way (self : Emerge) (atom : Atom) : Way :=
  match self.portage.matchAtom atom with
  | none => .aborts
  | some (.error _) => .raises
  | some (.ok none) => .raises
  | some (.ok (some ebuild)) =>
    match Dict.get self.selectedPackages ebuild.packageKey with
    | some pkg => self.packageWay atom pkg ebuild
    | none => .creates atom.key { key := atom.key, selectedEbuildSlots := [] } ebuild

end Emerge

theorem matchesEbuild_ok {atom : Atom} {ebuild : Ebuild} {b : Bool} :
    matchesEbuild atom ebuild = .ok b ↔ atomMatches atom ebuild = some b := by
  rw [matchesEbuild]
  cases atomMatches atom ebuild <;> simp

theorem matchesEbuild_true {atom : Atom} {ebuild : Ebuild} (h : matchesEbuild atom ebuild = .ok true) :
    atomMatches atom ebuild = some true := by
  rw [matchesEbuild] at h
  split at h
  · next b hb => rw [hb, Except.ok.inj h]
  · exact absurd h (by simp)

theorem matchesEbuild_of {atom : Atom} {ebuild : Ebuild} (h : atomMatches atom ebuild = some true) :
    matchesEbuild atom ebuild = .ok true := by
  rw [matchesEbuild, h]

namespace InstallPackage

variable {self : Emerge} {atom : Atom} {slots : Dict (Option (List Char)) Nat}

theorem firstMatch_some {sel : Nat} (h : firstMatch self atom slots = .ok (some sel)) :
    ∃ selected, self.selected[sel]? = some selected ∧
      atomMatches atom selected.ebuild = some true := by
  induction slots with
  | nil => exact absurd h (by simp [firstMatch])
  | cons p slots ih =>
    obtain ⟨slot, sel'⟩ := p
    rw [firstMatch] at h
    split at h
    · exact absurd h (by simp)
    · next selected hs =>
      cases hm : matchesEbuild atom selected.ebuild with
      | error e => simp [hm, Except.bind] at h
      | ok m =>
        cases m with
        | false =>
          simp only [hm, Except.bind] at h
          exact ih h
        | true =>
          simp only [hm, Except.bind, if_true, Except.ok.injEq, Option.some.injEq] at h
          exact ⟨selected, h ▸ hs, matchesEbuild_true hm⟩

theorem firstMatch_none (h : firstMatch self atom slots = .ok none) :
    ∀ p ∈ slots, ∃ selected, self.selected[p.2]? = some selected ∧
      matchesEbuild atom selected.ebuild = .ok false := by
  induction slots with
  | nil => simp
  | cons p slots ih =>
    obtain ⟨slot, sel'⟩ := p
    rw [firstMatch] at h
    split at h
    · exact absurd h (by simp)
    · next selected hs =>
      cases hm : matchesEbuild atom selected.ebuild with
      | error e => simp [hm, Except.bind] at h
      | ok m =>
        cases m with
        | true => simp [hm, Except.bind] at h
        | false =>
          simp only [hm, Except.bind] at h
          intro p hp
          rcases List.mem_cons.mp hp with rfl | hp
          · exact ⟨selected, hs, hm⟩
          · exact ih h p hp

end InstallPackage

/-- The test of `change_within_slot` on an ebuild. -/
def changeTest (atom : Atom) (selected : SelectedEbuild) (ebuild : Ebuild) : Except Stop Bool :=
  (matchesEbuild atom ebuild).bind fun allMatch =>
    prevAtomsMatch ebuild allMatch (selected.selectedBy.map Prod.fst)

namespace SelectedEbuild

/-- The atoms in `selected_by`. -/
def recorded (self : SelectedEbuild) : List Atom := self.selectedBy.map Prod.fst

/-- The atoms whose answers decide on an ebuild: the recorded ones overwrite the answer of the
new one. -/
def deciding (self : SelectedEbuild) (atom : Atom) : List Atom :=
  if self.recorded = [] then [atom] else self.recorded

/-- All deciding atoms match. -/
def Accepts (self : SelectedEbuild) (atom : Atom) (ebuild : Ebuild) : Prop :=
  atomMatches atom ebuild ≠ none ∧ ∀ a ∈ self.deciding atom, atomMatches a ebuild = some true

/-- The deciding atoms match up to one that does not, no comparison being cut short. -/
def Refuses (self : SelectedEbuild) (atom : Atom) (ebuild : Ebuild) : Prop :=
  atomMatches atom ebuild ≠ none ∧ ∃ front a back, self.deciding atom = front ++ a :: back ∧
    (∀ b ∈ front, atomMatches b ebuild = some true) ∧ atomMatches a ebuild = some false

end SelectedEbuild

theorem prevAtomsMatch_true {ebuild : Ebuild} {allMatch : Bool} {l : List Atom} :
    prevAtomsMatch ebuild allMatch l = .ok true ↔
      (l = [] → allMatch = true) ∧ ∀ a ∈ l, atomMatches a ebuild = some true := by
  induction l generalizing allMatch with
  | nil => simp [prevAtomsMatch]
  | cons a l ih =>
    rw [prevAtomsMatch]
    cases hm : atomMatches a ebuild with
    | none => simp [matchesEbuild, hm, Except.bind]
    | some b =>
      rw [matchesEbuild_ok.mpr hm]
      cases b with
      | false => simp [Except.bind, hm]
      | true =>
        show prevAtomsMatch ebuild true l = .ok true ↔ _
        rw [ih]
        simp [hm]

theorem prevAtomsMatch_false {ebuild : Ebuild} {allMatch : Bool} {l : List Atom} :
    prevAtomsMatch ebuild allMatch l = .ok false ↔ (l = [] ∧ allMatch = false) ∨
      ∃ front a back, l = front ++ a :: back ∧ (∀ b ∈ front, atomMatches b ebuild = some true) ∧
        atomMatches a ebuild = some false := by
  induction l generalizing allMatch with
  | nil => simp [prevAtomsMatch]
  | cons a l ih =>
    rw [prevAtomsMatch]
    cases hm : atomMatches a ebuild with
    | none =>
      simp only [matchesEbuild, hm, Except.bind, reduceCtorEq, false_and, false_or, false_iff]
      rintro ⟨front, c, back, hl, hfront, hc⟩
      cases front with
      | nil => simp_all
      | cons x front => simp_all
    | some b =>
      rw [matchesEbuild_ok.mpr hm]
      cases b with
      | false =>
        simp only [Except.bind, Bool.false_eq_true, if_false, true_iff]
        exact .inr ⟨[], a, l, rfl, by simp, hm⟩
      | true =>
        show prevAtomsMatch ebuild true l = .ok false ↔ _
        rw [ih]
        constructor
        · rintro (⟨-, h⟩ | ⟨front, c, back, rfl, hfront, hc⟩)
          · exact absurd h (by simp)
          · exact .inr ⟨a :: front, c, back, rfl, List.forall_mem_cons.mpr ⟨hm, hfront⟩, hc⟩
        · rintro (⟨h, -⟩ | ⟨front, c, back, hl, hfront, hc⟩)
          · exact absurd h (by simp)
          · cases front with
            | nil => simp_all
            | cons x front =>
              obtain ⟨rfl, rfl⟩ := List.cons.inj hl
              exact .inr ⟨front, c, back, rfl, fun b hb => hfront b (by simp [hb]), hc⟩

namespace SelectedEbuild

variable {self : SelectedEbuild} {atom : Atom} {ebuild : Ebuild}

theorem changeTest_true_iff : changeTest atom self ebuild = .ok true ↔ self.Accepts atom ebuild := by
  rw [changeTest, Accepts, deciding]
  cases hm : atomMatches atom ebuild with
  | none => simp [matchesEbuild, hm, Except.bind]
  | some b =>
    rw [matchesEbuild_ok.mpr hm]
    show prevAtomsMatch ebuild b self.recorded = .ok true ↔ _
    rw [prevAtomsMatch_true]
    by_cases hr : self.recorded = []
    · simp [hr, hm]
    · simp [hr]

theorem changeTest_false_iff : changeTest atom self ebuild = .ok false ↔ self.Refuses atom ebuild := by
  rw [changeTest, Refuses, deciding]
  cases hm : atomMatches atom ebuild with
  | none => simp [matchesEbuild, hm, Except.bind]
  | some b =>
    rw [matchesEbuild_ok.mpr hm]
    show prevAtomsMatch ebuild b self.recorded = .ok false ↔ _
    have hsome : some b ≠ (none : Option Bool) := by simp
    rw [prevAtomsMatch_false, and_iff_right hsome]
    by_cases hr : self.recorded = []
    · rw [if_pos hr, hr]
      constructor
      · rintro (⟨-, rfl⟩ | ⟨front, a, back, h, -⟩)
        · exact ⟨[], atom, [], rfl, by simp, hm⟩
        · exact absurd h (by simp)
      · rintro ⟨front, a, back, h, -, ha⟩
        obtain ⟨rfl, rfl, rfl⟩ : front = [] ∧ a = atom ∧ back = [] := by
          cases front <;> simp_all
        exact .inl ⟨rfl, Option.some.inj (hm.symm.trans ha)⟩
    · rw [if_neg hr, or_iff_right fun h => hr h.1]

theorem Accepts.recorded (h : self.Accepts atom ebuild) :
    ∀ a ∈ self.recorded, atomMatches a ebuild = some true := by
  intro a ha
  apply h.2
  rw [deciding, if_neg (List.ne_nil_of_mem ha)]
  exact ha

theorem Refuses.not_matched (h : self.Refuses atom ebuild) (hatom : atomMatches atom ebuild = some true)
    (hall : ∀ a ∈ self.recorded, atomMatches a ebuild = some true) : False := by
  obtain ⟨-, front, a, back, hd, -, ha⟩ := h
  have hmem : a ∈ self.deciding atom := by simp [hd]
  have htrue : atomMatches a ebuild = some true := by
    rw [deciding] at hmem
    split at hmem
    · rw [List.mem_singleton.mp hmem]
      exact hatom
    · exact hall a hmem
  exact absurd (htrue.symm.trans ha) (by simp)

end SelectedEbuild

/-- The state after a change. -/
def Emerge.changed (self : Emerge) (sel : Nat) (selected : SelectedEbuild) (ebuild : Ebuild) :
    Emerge :=
  { self with selected := self.selected.set sel { selected with ebuild := ebuild, isDirty := true } }

/-- What a call does on its way. -/
def Went (self : Emerge) (parent : Option Nat) (atom : Atom)
    (r : Except Stop (Option Nat × Emerge)) : Way → Prop
  | .raises => ∃ e, r = .error (.raised e)
  | .aborts => ∃ e, r = .error e ∧ ∀ e', e ≠ .raised e'
  | .reuses sel => r = .ok (some sel, self) ∧ ∃ selected,
      self.selected[sel]? = some selected ∧ atomMatches atom selected.ebuild = some true
  | .unknownSlot => r = .ok (none, self)
  | .creates key pkg ebuild =>
      r = (pkg.addAtom key parent atom ebuild self).map fun r => (some r.1, r.2)
  | .changes sel candidate => ∃ selected, self.selected[sel]? = some selected ∧
      r = (changeTest atom selected candidate).bind fun m =>
        if m then .ok (some sel, self.changed sel selected candidate) else .error .diverged

theorem changeWithinSlot_none {self : Emerge} {sel : Nat} (atom : Atom)
    (h : self.candidate sel = none) :
    (∃ e, changeWithinSlot sel atom self = .error (.raised e)) ∨
      changeWithinSlot sel atom self = .ok (false, self) := by
  rw [Emerge.candidate] at h
  rw [changeWithinSlot, changeWithinSlotOver]
  cases hs : self.selected[sel]? with
  | none => exact .inl ⟨_, rfl⟩
  | some selected =>
    rw [hs, Option.bind_some] at h
    cases hp : self.package selected.ebuild with
    | none => exact .inl ⟨.typeError, by simp only [hp]⟩
    | some package =>
      rw [hp, Option.bind_some, List.head?_eq_none_iff] at h
      by_cases hi : package.iter = []
      · exact .inl ⟨.systemError, by simp only [hp, hi, if_true]⟩
      · refine .inr ?_
        simp only [hp, if_neg hi, search, searchTurns, h]
        rfl

theorem changeWithinSlot_some {self : Emerge} {sel : Nat} (atom : Atom) {candidate : Ebuild}
    (h : self.candidate sel = some candidate) :
    ∃ selected, self.selected[sel]? = some selected ∧
      changeWithinSlot sel atom self = (changeTest atom selected candidate).bind fun m =>
        if m then .ok (true, self.changed sel selected candidate) else .error .diverged := by
  rw [Emerge.candidate] at h
  obtain ⟨selected, hs, h⟩ := Option.bind_eq_some_iff.mp h
  obtain ⟨package, hp, h⟩ := Option.bind_eq_some_iff.mp h
  obtain ⟨older, hnext⟩ := List.head?_eq_some_iff.mp h
  have hi : package.iter ≠ [] := by
    intro hi
    rw [hi] at hnext
    exact absurd hnext (by simp [Package.ebuildNext])
  refine ⟨selected, hs, ?_⟩
  simp only [changeWithinSlot, changeWithinSlotOver, hs, hp, if_neg hi, search, searchTurns, hnext]
  show ((changeTest atom selected candidate).bind _ |>.bind _).map _ = _
  cases changeTest atom selected candidate with
  | error e => rfl
  | ok m => cases m <;> rfl

theorem matchAtom_went (self : Emerge) (parent : Option Nat) (atom : Atom) (pkg : InstallPackage)
    (ebuild : Ebuild) : Went self parent atom
      (pkg.matchAtom ebuild.packageKey parent atom ebuild self) (self.packageWay atom pkg ebuild) := by
  rw [InstallPackage.matchAtom, InstallPackage.matchAtomOver, ← changeWithinSlot, Emerge.packageWay]
  cases hfirst : InstallPackage.firstMatch self atom pkg.selectedEbuildSlots with
  | error stop =>
    cases stop with
    | raised e => exact ⟨e, rfl⟩
    | diverged => exact ⟨_, rfl, by simp⟩
    | aborted => exact ⟨_, rfl, by simp⟩
  | ok found =>
    cases found with
    | some sel => exact ⟨rfl, InstallPackage.firstMatch_some hfirst⟩
    | none =>
      simp only [Except.bind]
      cases hslot : self.slot ebuild with
      | none => rfl
      | some slot =>
        cases hget : Dict.get pkg.selectedEbuildSlots (some slot) with
        | none =>
          simp only [hget]
          rfl
        | some sel =>
          obtain ⟨selected, hs, hm⟩ := InstallPackage.firstMatch_none hfirst _ (Dict.mem_of_get hget)
          simp only [hget, hs, hm, Bool.false_eq_true, if_false]
          cases hc : self.candidate sel with
          | none =>
            rcases changeWithinSlot_none atom hc with ⟨e, he⟩ | he
            · exact ⟨e, by rw [he]⟩
            · exact ⟨.notImplemented, by rw [he]; rfl⟩
          | some candidate =>
            obtain ⟨selected', hs', hchange⟩ := changeWithinSlot_some atom hc
            refine ⟨selected', hs', ?_⟩
            rw [hchange]
            cases changeTest atom selected' candidate with
            | error e => rfl
            | ok m => cases m <;> rfl

theorem selectAtom_went (self : Emerge) (parent : Option Nat) (atom : Atom) :
    Went self parent atom (selectAtom parent atom self) (self.way atom) := by
  rw [selectAtom, selectAtomOver, Emerge.way]
  cases hfound : self.portage.matchAtom atom with
  | none => exact ⟨_, rfl, by simp⟩
  | some r =>
    cases r with
    | error e => exact ⟨_, rfl⟩
    | ok found =>
      cases found with
      | none => exact ⟨_, rfl⟩
      | some ebuild =>
        cases hpkg : Dict.get self.selectedPackages ebuild.packageKey with
        | none =>
          simp only [hpkg]
          rfl
        | some pkg =>
          simp only [hpkg]
          exact matchAtom_went self parent atom pkg ebuild

/-! What decides: the repository, the tables and the versions. -/

namespace Portage

/-- The package the id of an atom leads to. -/
def packageOf (self : Portage) (atom : Atom) : Option Package :=
  self.deref (Lut.lutGet self.packages atom.id)

/-- Of the package of the atom, the ebuild is the first that the operator takes; under `=` and
`~` none in front of it is newer. -/
def Offers (self : Portage) (atom : Atom) (ebuild : Ebuild) : Prop :=
  ∃ package, self.packageOf atom = some package ∧
    Reached (Package.Skips atom) package.ebuilds ebuild ∧ Package.Takes atom ebuild

/-- The package has an ebuild, none in front of it being taken, of which the version cannot be
compared with the one asked for. -/
def Incomparable (self : Portage) (atom : Atom) : Prop :=
  ∃ package ebuild, self.packageOf atom = some package ∧
    Reached (Package.Skips atom) package.ebuilds ebuild ∧
      atomVersionCompare ebuild.version atom.version = none

theorem matchAtom_some_iff {self : Portage} {atom : Atom} {ebuild : Ebuild} :
    self.matchAtom atom = some (.ok (some ebuild)) ↔ self.Offers atom ebuild := by
  rw [matchAtom, Offers, packageOf]
  cases self.deref (Lut.lutGet self.packages atom.id) with
  | none => simp
  | some package =>
    simp only [Option.map_eq_some_iff, Except.ok.injEq, exists_eq_right, Option.some.injEq, exists_eq_left',
      Package.matchAtom, Package.matchLoop_some_iff]

theorem matchAtom_none_iff {self : Portage} {atom : Atom} :
    self.matchAtom atom = none ↔ self.Incomparable atom := by
  rw [matchAtom, Incomparable, packageOf]
  cases self.deref (Lut.lutGet self.packages atom.id) with
  | none => simp
  | some package =>
    simp only [Option.map_eq_none_iff, Option.some.injEq, Package.matchAtom, Package.matchLoop_none_iff]
    constructor
    · rintro ⟨e, he, hnone⟩
      exact ⟨package, e, rfl, he, hnone⟩
    · rintro ⟨_, e, rfl, he, hnone⟩
      exact ⟨e, he, hnone⟩

end Portage

namespace Emerge

/-- The answer of the atom to the ebuild of the object at a place of a table. -/
def AnswersAt (self : Emerge) (atom : Atom) (answer : Option Bool) (p : Option (List Char) × Nat) : Prop :=
  ∃ selected, self.selected[p.2]? = some selected ∧ atomMatches atom selected.ebuild = answer

/-- The package of the ebuild that is offered has been selected. -/
def Selected (self : Emerge) (atom : Atom) (ebuild : Ebuild) (pkg : InstallPackage) : Prop :=
  self.portage.Offers atom ebuild ∧ Dict.get self.selectedPackages ebuild.packageKey = some pkg

/-- Its package has been selected, with no object whose ebuild the atom matches. -/
def Unmatched (self : Emerge) (atom : Atom) (ebuild : Ebuild) (pkg : InstallPackage) : Prop :=
  self.Selected atom ebuild pkg ∧ ∀ p ∈ pkg.selectedEbuildSlots, self.AnswersAt atom (some false) p

/-- The object is the first of the package whose ebuild the atom matches. -/
def Reuses (self : Emerge) (atom : Atom) (sel : Nat) : Prop :=
  ∃ ebuild pkg slot, self.Selected atom ebuild pkg ∧
    Reached (self.AnswersAt atom (some false)) pkg.selectedEbuildSlots (slot, sel) ∧
      self.AnswersAt atom (some true) (slot, sel)

/-- No object matches and the slot of the ebuild is not known. -/
def LacksSlot (self : Emerge) (atom : Atom) : Prop :=
  ∃ ebuild pkg, self.Unmatched atom ebuild pkg ∧ self.slot ebuild = none

/-- The ebuild is the first of its package, or no object matches and its slot is free. -/
def Opens (self : Emerge) (atom : Atom) (ebuild : Ebuild) : Prop :=
  (self.portage.Offers atom ebuild ∧ Dict.get self.selectedPackages ebuild.packageKey = none) ∨
    ∃ pkg slot, self.Unmatched atom ebuild pkg ∧ self.slot ebuild = some slot ∧
      Dict.get pkg.selectedEbuildSlots (some slot) = none

/-- The ebuild is the second in the package of the ebuild of an object. -/
def Second (self : Emerge) (sel : Nat) (candidate : Ebuild) : Prop :=
  ∃ selected package first back, self.selected[sel]? = some selected ∧
    self.package selected.ebuild = some package ∧ package.ebuilds = first :: candidate :: back

/-- No object matches, the slot is taken, and the object there may change to the second ebuild of
its package, which is the only one that iterating comes to. -/
def Changes (self : Emerge) (atom : Atom) (sel : Nat) (candidate : Ebuild) : Prop :=
  ∃ ebuild pkg slot, self.Unmatched atom ebuild pkg ∧ self.slot ebuild = some slot ∧
    Dict.get pkg.selectedEbuildSlots (some slot) = some sel ∧ self.Second sel candidate

/-- A comparison of versions is not defined that the call comes to: with an ebuild of the package
or with one that has been selected. -/
def Undefined (self : Emerge) (atom : Atom) : Prop :=
  self.portage.Incomparable atom ∨
    ∃ ebuild pkg p, self.Selected atom ebuild pkg ∧
      Reached (self.AnswersAt atom (some false)) pkg.selectedEbuildSlots p ∧ self.AnswersAt atom none p

end Emerge

namespace InstallPackage

variable {self : Emerge} {atom : Atom} {slots : Dict (Option (List Char)) Nat}

/-- What a turn over the slots does. -/
theorem firstMatch_turn (p : Option (List Char) × Nat) (slots : Dict (Option (List Char)) Nat) :
    (self.selected[p.2]? = none ∧ firstMatch self atom (p :: slots) = .error (.raised .systemError)) ∨
      (self.AnswersAt atom none p ∧ firstMatch self atom (p :: slots) = .error .aborted) ∨
      (self.AnswersAt atom (some true) p ∧ firstMatch self atom (p :: slots) = .ok (some p.2)) ∨
      (self.AnswersAt atom (some false) p ∧ firstMatch self atom (p :: slots) = firstMatch self atom slots) := by
  obtain ⟨slot, sel⟩ := p
  simp only [firstMatch]
  cases hs : self.selected[sel]? with
  | none => exact .inl ⟨rfl, rfl⟩
  | some selected =>
    cases hm : atomMatches atom selected.ebuild with
    | none => exact .inr (.inl ⟨⟨selected, hs, hm⟩, by simp only [matchesEbuild, hm]; rfl⟩)
    | some b =>
      cases b with
      | true => exact .inr (.inr (.inl ⟨⟨selected, hs, hm⟩, by simp only [matchesEbuild, hm]; rfl⟩))
      | false => exact .inr (.inr (.inr ⟨⟨selected, hs, hm⟩, by simp only [matchesEbuild, hm]; rfl⟩))

theorem answersAt_unique {b c : Option Bool} {p : Option (List Char) × Nat} (h : self.AnswersAt atom b p)
    (h' : self.AnswersAt atom c p) : b = c := by
  obtain ⟨selected, hs, hm⟩ := h
  obtain ⟨selected', hs', hm'⟩ := h'
  obtain rfl := Option.some.inj (hs.symm.trans hs')
  exact hm.symm.trans hm'

theorem not_answersAt_of_none {b : Option Bool} {p : Option (List Char) × Nat} (h : self.selected[p.2]? = none) :
    ¬ self.AnswersAt atom b p := by
  rintro ⟨selected, hs, -⟩
  exact absurd (h.symm.trans hs) (by simp)

theorem firstMatch_some_iff {sel : Nat} : firstMatch self atom slots = .ok (some sel) ↔
    ∃ slot, Reached (self.AnswersAt atom (some false)) slots (slot, sel) ∧
      self.AnswersAt atom (some true) (slot, sel) := by
  induction slots with
  | nil => exact ⟨fun h => absurd h (by simp [firstMatch]), fun ⟨_, h, _⟩ => absurd h not_reached_nil⟩
  | cons p slots ih =>
    simp only [reached_cons]
    rcases @firstMatch_turn self atom p slots with ⟨hno, he⟩ | ⟨hat, he⟩ | ⟨hat, he⟩ | ⟨hat, he⟩
    · rw [he]
      refine iff_of_false (by simp) ?_
      rintro ⟨slot, rfl | ⟨hfalse, -⟩, htrue⟩
      · exact not_answersAt_of_none hno htrue
      · exact not_answersAt_of_none hno hfalse
    · rw [he]
      refine iff_of_false (by simp) ?_
      rintro ⟨slot, rfl | ⟨hfalse, -⟩, htrue⟩
      · exact absurd (answersAt_unique hat htrue) (by simp)
      · exact absurd (answersAt_unique hat hfalse) (by simp)
    · rw [he, Except.ok.injEq, Option.some.injEq]
      constructor
      · rintro rfl
        exact ⟨p.1, .inl rfl, hat⟩
      · rintro ⟨slot, rfl | ⟨hfalse, -⟩, htrue⟩
        · rfl
        · exact absurd (answersAt_unique hat hfalse) (by simp)
    · rw [he, ih]
      constructor
      · rintro ⟨slot, h, htrue⟩
        exact ⟨slot, .inr ⟨hat, h⟩, htrue⟩
      · rintro ⟨slot, rfl | ⟨-, h⟩, htrue⟩
        · exact absurd (answersAt_unique hat htrue) (by simp)
        · exact ⟨slot, h, htrue⟩

theorem firstMatch_none_iff : firstMatch self atom slots = .ok none ↔
    ∀ p ∈ slots, self.AnswersAt atom (some false) p := by
  induction slots with
  | nil => exact iff_of_true rfl (by simp)
  | cons p slots ih =>
    rw [List.forall_mem_cons]
    rcases @firstMatch_turn self atom p slots with ⟨hno, he⟩ | ⟨hat, he⟩ | ⟨hat, he⟩ | ⟨hat, he⟩
    · rw [he]
      exact iff_of_false (by simp) fun h => not_answersAt_of_none hno h.1
    · rw [he]
      exact iff_of_false (by simp) fun h => absurd (answersAt_unique hat h.1) (by simp)
    · rw [he]
      exact iff_of_false (by simp) fun h => absurd (answersAt_unique hat h.1) (by simp)
    · rw [he, ih, and_iff_right hat]

theorem firstMatch_aborted_iff : firstMatch self atom slots = .error .aborted ↔
    ∃ p, Reached (self.AnswersAt atom (some false)) slots p ∧ self.AnswersAt atom none p := by
  induction slots with
  | nil => exact ⟨fun h => absurd h (by simp [firstMatch]), fun ⟨_, h, _⟩ => absurd h not_reached_nil⟩
  | cons p slots ih =>
    simp only [reached_cons]
    rcases @firstMatch_turn self atom p slots with ⟨hno, he⟩ | ⟨hat, he⟩ | ⟨hat, he⟩ | ⟨hat, he⟩
    · rw [he]
      refine iff_of_false (by simp) ?_
      rintro ⟨q, rfl | ⟨hfalse, -⟩, hnone⟩
      · exact not_answersAt_of_none hno hnone
      · exact not_answersAt_of_none hno hfalse
    · rw [he]
      exact iff_of_true rfl ⟨p, .inl rfl, hat⟩
    · rw [he]
      refine iff_of_false (by simp) ?_
      rintro ⟨q, rfl | ⟨hfalse, -⟩, hnone⟩
      · exact absurd (answersAt_unique hat hnone) (by simp)
      · exact absurd (answersAt_unique hat hfalse) (by simp)
    · rw [he, ih]
      constructor
      · rintro ⟨q, h, hnone⟩
        exact ⟨q, .inr ⟨hat, h⟩, hnone⟩
      · rintro ⟨q, rfl | ⟨-, h⟩, hnone⟩
        · exact absurd (answersAt_unique hat hnone) (by simp)
        · exact ⟨q, h, hnone⟩

theorem firstMatch_not_diverged : firstMatch self atom slots ≠ .error .diverged := by
  induction slots with
  | nil => simp [firstMatch]
  | cons p slots ih =>
    rcases @firstMatch_turn self atom p slots with ⟨-, he⟩ | ⟨-, he⟩ | ⟨-, he⟩ | ⟨-, he⟩
    · simp [he]
    · simp [he]
    · simp [he]
    · rwa [he]

end InstallPackage

namespace Emerge

variable {self : Emerge} {atom : Atom} {ebuild : Ebuild} {pkg : InstallPackage} {sel : Nat} {candidate : Ebuild}

theorem candidate_iff : self.candidate sel = some candidate ↔ self.Second sel candidate := by
  rw [Emerge.candidate, Second]
  constructor
  · intro h
    obtain ⟨selected, hs, h⟩ := Option.bind_eq_some_iff.mp h
    obtain ⟨package, hp, h⟩ := Option.bind_eq_some_iff.mp h
    refine ⟨selected, package, ?_⟩
    cases he : package.ebuilds with
    | nil => simp [Package.iter, Package.ebuildNext, he] at h
    | cons first older =>
      obtain ⟨back, rfl⟩ := List.head?_eq_some_iff.mp (show older.head? = some candidate by
        simpa [Package.iter, Package.ebuildNext, he] using h)
      exact ⟨first, back, hs, hp, rfl⟩
  · rintro ⟨selected, package, first, back, hs, hp, he⟩
    simp [hs, hp, Package.iter, Package.ebuildNext, he]

theorem way_of_selected (h : self.Selected atom ebuild pkg) : self.way atom = self.packageWay atom pkg ebuild := by
  simp only [way, Portage.matchAtom_some_iff.mpr h.1, h.2]

theorem packageWay_of_unmatched (h : self.Unmatched atom ebuild pkg) : self.packageWay atom pkg ebuild =
    match self.slot ebuild with
    | none => .unknownSlot
    | some slot =>
      match Dict.get pkg.selectedEbuildSlots (some slot) with
      | none => .creates ebuild.packageKey pkg ebuild
      | some sel =>
        match self.candidate sel with
        | none => .raises
        | some candidate => .changes sel candidate := by
  rw [packageWay, InstallPackage.firstMatch_none_iff.mpr h.2]

/-- What decides for a way. -/
def Decides (self : Emerge) (atom : Atom) : Way → Prop
  | .raises => True
  | .aborts => self.Undefined atom
  | .reuses sel => self.Reuses atom sel
  | .unknownSlot => self.LacksSlot atom
  | .creates _ _ ebuild => self.Opens atom ebuild
  | .changes sel candidate => self.Changes atom sel candidate

theorem packageWay_decides (h : self.Selected atom ebuild pkg) :
    self.Decides atom (self.packageWay atom pkg ebuild) := by
  cases hfirst : InstallPackage.firstMatch self atom pkg.selectedEbuildSlots with
  | error stop =>
    rw [packageWay, hfirst]
    cases stop with
    | raised e => trivial
    | diverged => exact absurd hfirst InstallPackage.firstMatch_not_diverged
    | aborted =>
      obtain ⟨p, hp, hnone⟩ := InstallPackage.firstMatch_aborted_iff.mp hfirst
      exact .inr ⟨ebuild, pkg, p, h, hp, hnone⟩
  | ok found =>
    cases found with
    | some sel =>
      obtain ⟨slot, hslot, htrue⟩ := InstallPackage.firstMatch_some_iff.mp hfirst
      rw [packageWay, hfirst]
      exact ⟨ebuild, pkg, slot, h, hslot, htrue⟩
    | none =>
      have hunmatched : self.Unmatched atom ebuild pkg := ⟨h, InstallPackage.firstMatch_none_iff.mp hfirst⟩
      rw [packageWay_of_unmatched hunmatched]
      cases hslot : self.slot ebuild with
      | none => exact ⟨ebuild, pkg, hunmatched, hslot⟩
      | some slot =>
        cases hget : Dict.get pkg.selectedEbuildSlots (some slot) with
        | none =>
          simp only [hget]
          exact .inr ⟨pkg, slot, hunmatched, hslot, hget⟩
        | some sel =>
          simp only [hget]
          cases hc : self.candidate sel with
          | none => trivial
          | some candidate => exact ⟨ebuild, pkg, slot, hunmatched, hslot, hget, candidate_iff.mp hc⟩

theorem way_decides (self : Emerge) (atom : Atom) : self.Decides atom (self.way atom) := by
  cases hfound : self.portage.matchAtom atom with
  | none =>
    rw [way, hfound]
    exact .inl (Portage.matchAtom_none_iff.mp hfound)
  | some r =>
    rcases r with e | _ | ebuild
    · rw [way, hfound]
      trivial
    · rw [way, hfound]
      trivial
    · have hoffers := Portage.matchAtom_some_iff.mp hfound
      cases hpkg : Dict.get self.selectedPackages ebuild.packageKey with
      | none =>
        simp only [way, hfound, hpkg]
        exact .inl ⟨hoffers, hpkg⟩
      | some pkg =>
        rw [way_of_selected ⟨hoffers, hpkg⟩]
        exact packageWay_decides ⟨hoffers, hpkg⟩

theorem way_of_undefined (h : self.Undefined atom) : self.way atom = .aborts := by
  rcases h with h | ⟨ebuild, pkg, p, hselected, hp, hnone⟩
  · simp only [way, Portage.matchAtom_none_iff.mpr h]
  · rw [way_of_selected hselected, packageWay, InstallPackage.firstMatch_aborted_iff.mpr ⟨p, hp, hnone⟩]

theorem way_of_reuses (h : self.Reuses atom sel) : self.way atom = .reuses sel := by
  obtain ⟨ebuild, pkg, slot, hselected, hslot, htrue⟩ := h
  rw [way_of_selected hselected, packageWay, InstallPackage.firstMatch_some_iff.mpr ⟨slot, hslot, htrue⟩]

theorem way_of_lacksSlot (h : self.LacksSlot atom) : self.way atom = .unknownSlot := by
  obtain ⟨ebuild, pkg, hunmatched, hslot⟩ := h
  rw [way_of_selected hunmatched.1, packageWay_of_unmatched hunmatched, hslot]

theorem way_of_opens (h : self.Opens atom ebuild) : ∃ key pkg, self.way atom = .creates key pkg ebuild := by
  rcases h with ⟨hoffers, hnone⟩ | ⟨pkg, slot, hunmatched, hslot, hget⟩
  · refine ⟨atom.key, { key := atom.key, selectedEbuildSlots := [] }, ?_⟩
    simp only [way, Portage.matchAtom_some_iff.mpr hoffers, hnone]
  · refine ⟨ebuild.packageKey, pkg, ?_⟩
    rw [way_of_selected hunmatched.1, packageWay_of_unmatched hunmatched, hslot]
    simp only [hget]

theorem way_of_changes (h : self.Changes atom sel candidate) : self.way atom = .changes sel candidate := by
  obtain ⟨ebuild, pkg, slot, hunmatched, hslot, hget, hsecond⟩ := h
  rw [way_of_selected hunmatched.1, packageWay_of_unmatched hunmatched, hslot]
  simp only [hget, candidate_iff.mpr hsecond]

theorem undefined_iff : self.Undefined atom ↔ self.way atom = .aborts := by
  refine ⟨way_of_undefined, fun h => ?_⟩
  have hdecides := self.way_decides atom
  rwa [h] at hdecides

theorem lacksSlot_iff : self.LacksSlot atom ↔ self.way atom = .unknownSlot := by
  refine ⟨way_of_lacksSlot, fun h => ?_⟩
  have hdecides := self.way_decides atom
  rwa [h] at hdecides

theorem reuses_iff : self.Reuses atom sel ↔ self.way atom = .reuses sel := by
  refine ⟨way_of_reuses, fun h => ?_⟩
  have hdecides := self.way_decides atom
  rwa [h] at hdecides

theorem opens_iff : self.Opens atom ebuild ↔ ∃ key pkg, self.way atom = .creates key pkg ebuild := by
  refine ⟨way_of_opens, fun ⟨key, pkg, h⟩ => ?_⟩
  have hdecides := self.way_decides atom
  rwa [h] at hdecides

theorem changes_iff : self.Changes atom sel candidate ↔ self.way atom = .changes sel candidate := by
  refine ⟨way_of_changes, fun h => ?_⟩
  have hdecides := self.way_decides atom
  rwa [h] at hdecides

theorem candidate_of_changes (h : self.Changes atom sel candidate) : self.candidate sel = some candidate := by
  obtain ⟨_, _, _, -, -, -, hsecond⟩ := h
  exact candidate_iff.mpr hsecond

end Emerge

/-- A call that lacks the slot returns nothing, and only such a call does. -/
theorem selectAtom_none_iff {self t : Emerge} {parent : Option Nat} {atom : Atom} :
    selectAtom parent atom self = .ok (none, t) ↔ self.LacksSlot atom ∧ t = self := by
  have hwent := selectAtom_went self parent atom
  rw [Emerge.lacksSlot_iff]
  constructor
  · intro h
    rw [h] at hwent
    cases hway : self.way atom with
    | raises =>
      rw [hway] at hwent
      obtain ⟨e, he⟩ := hwent
      exact absurd he (by simp)
    | aborts =>
      rw [hway] at hwent
      obtain ⟨e, he, -⟩ := hwent
      exact absurd he (by simp)
    | reuses sel =>
      rw [hway] at hwent
      exact absurd hwent.1 (by simp)
    | unknownSlot =>
      rw [hway] at hwent
      exact ⟨rfl, (Prod.mk.inj (Except.ok.inj hwent)).2⟩
    | creates key pkg ebuild =>
      rw [hway] at hwent
      cases hadd : pkg.addAtom key parent atom ebuild self with
      | error e =>
        rw [Went, hadd] at hwent
        exact absurd hwent (by simp [Except.map])
      | ok r =>
        rw [Went, hadd] at hwent
        exact absurd hwent (by simp [Except.map])
    | changes sel candidate =>
      rw [hway] at hwent
      obtain ⟨selected, -, he⟩ := hwent
      cases htest : changeTest atom selected candidate with
      | error e =>
        rw [htest] at he
        exact absurd he (by simp [Except.bind])
      | ok m =>
        rw [htest] at he
        cases m <;> exact absurd he (by simp [Except.bind])
  · rintro ⟨hway, rfl⟩
    rwa [hway] at hwent

end AutoGentoo
