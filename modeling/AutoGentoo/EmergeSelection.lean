import AutoGentoo.Emerge

/-! What `select_atom` does depends on the ebuilds selected and on what they were
selected by, not on flags, hooks or dependencies. -/

namespace AutoGentoo

def SelectedEbuild.bare (self : SelectedEbuild) : SelectedEbuild where
  selectedBy := self.selectedBy
  ebuild := self.ebuild
  useflags := []
  useFlagHooks := []
  globalFlagHooks := []
  flags := []
  generators := .empty
  resolvedDeps := .empty
  isDirty := true

@[simp] theorem SelectedEbuild.bare_ebuild (self : SelectedEbuild) : self.bare.ebuild = self.ebuild :=
  rfl

@[simp] theorem SelectedEbuild.bare_selectedBy (self : SelectedEbuild) :
    self.bare.selectedBy = self.selectedBy := rfl

namespace Emerge

/-- The part of the state that selecting depends on. -/
def selection (self : Emerge) : Emerge :=
  { self with
    selected := self.selected.map SelectedEbuild.bare
    blocks := []
    resolveSession := [] }

/-- A result with the selection it leads to. -/
def andSelection {α : Type} (r : Except Stop (α × Emerge)) : Except Stop (α × Emerge) :=
  r.map fun p => (p.1, p.2.selection)

theorem selection_selected (self : Emerge) (sel : Nat) :
    self.selection.selected[sel]? = (self.selected[sel]?).map SelectedEbuild.bare :=
  List.getElem?_map

@[simp] theorem selection_slot (self : Emerge) (ebuild : Ebuild) :
    self.selection.slot ebuild = self.slot ebuild := rfl

@[simp] theorem selection_package (self : Emerge) (ebuild : Ebuild) :
    self.selection.package ebuild = self.package ebuild := rfl

@[simp] theorem selection_portage (self : Emerge) : self.selection.portage = self.portage := rfl

@[simp] theorem selection_selectedPackages (self : Emerge) :
    self.selection.selectedPackages = self.selectedPackages := rfl

variable (loop : ForLoop) (self : Emerge) (atom : Atom)

theorem firstMatch_selection (slots : Dict (Option (List Char)) Nat) :
    InstallPackage.firstMatch self.selection atom slots =
      InstallPackage.firstMatch self atom slots := by
  induction slots with
  | nil => rfl
  | cons p slots ih =>
    rw [InstallPackage.firstMatch, InstallPackage.firstMatch, selection_selected, ih]
    cases self.selected[p.2]? <;> rfl

theorem changeWithinSlot_selection (sel : Nat) : changeWithinSlotOver loop sel atom self.selection =
    andSelection (changeWithinSlotOver loop sel atom self) := by
  rw [changeWithinSlotOver, changeWithinSlotOver, selection_selected]
  cases self.selected[sel]? with
  | none => rfl
  | some selected =>
    simp only [Option.map_some, SelectedEbuild.bare_ebuild, SelectedEbuild.bare_selectedBy,
      selection_package]
    cases self.package selected.ebuild with
    | none => rfl
    | some package =>
      by_cases hi : package.iter = []
      · simp only [hi, if_true]
        rfl
      · simp only [if_neg hi]
        cases loop _ package.iter with
        | error e => rfl
        | ok found =>
          cases found with
          | none => rfl
          | some ebuild =>
            simp only [Except.map, andSelection, selection, List.map_set]
            rfl

theorem addAtom_selection (pkg : InstallPackage) (key : List Char) (parent : Option Nat)
    (ebuild : Ebuild) : pkg.addAtom key parent atom ebuild self.selection =
      andSelection (pkg.addAtom key parent atom ebuild self) := by
  simp only [InstallPackage.addAtom, andSelection, Except.map, selection, List.map_append,
    List.length_map]
  rfl

theorem map_andSelection {α β : Type} (f : α → β) (r : Except Stop (α × Emerge)) :
    (andSelection r).map (fun p => (f p.1, p.2)) =
      andSelection (r.map fun p => (f p.1, p.2)) := by
  cases r <;> rfl

theorem matchAtom_selection (pkg : InstallPackage) (key : List Char) (parent : Option Nat)
    (ebuild : Ebuild) : pkg.matchAtomOver loop key parent atom ebuild self.selection =
      andSelection (pkg.matchAtomOver loop key parent atom ebuild self) := by
  rw [InstallPackage.matchAtomOver, InstallPackage.matchAtomOver, firstMatch_selection]
  cases InstallPackage.firstMatch self atom pkg.selectedEbuildSlots with
  | error e => rfl
  | ok found =>
    simp only [Except.bind, selection_slot]
    cases found with
    | some sel => rfl
    | none =>
      cases self.slot ebuild with
      | none => rfl
      | some slot =>
        simp only
        cases Dict.get pkg.selectedEbuildSlots (some slot) with
        | none =>
          simp only [addAtom_selection]
          exact map_andSelection _ _
        | some sel =>
          simp only [selection_selected]
          cases self.selected[sel]? with
          | none => rfl
          | some selEbuild =>
            simp only [Option.map_some, SelectedEbuild.bare_ebuild, changeWithinSlot_selection]
            cases matchesEbuild atom selEbuild.ebuild with
            | error e => rfl
            | ok m =>
              cases m with
              | true => rfl
              | false =>
                cases changeWithinSlotOver loop sel atom self with
                | error e => rfl
                | ok r => obtain ⟨b, w⟩ := r; cases b <;> rfl

theorem selectAtom_selection (parent : Option Nat) : selectAtomOver loop parent atom self.selection =
    andSelection (selectAtomOver loop parent atom self) := by
  rw [selectAtomOver, selectAtomOver, selection_portage]
  cases self.portage.matchAtom atom with
  | none => rfl
  | some r =>
    cases r with
    | error e => rfl
    | ok found =>
      cases found with
      | none => rfl
      | some ebuild =>
        simp only [selection_selectedPackages]
        cases Dict.get self.selectedPackages ebuild.packageKey with
        | some pkg => exact matchAtom_selection loop self atom pkg _ parent ebuild
        | none =>
          simp only [addAtom_selection]
          exact map_andSelection _ _

/-- Equal selections lead to equal answers and equal selections. -/
theorem selectAtom_congr {loop : ForLoop} {self self' : Emerge} (h : self.selection = self'.selection) {atom : Atom}
    {parent sel : Option Nat} {t : Emerge} (hs : selectAtomOver loop parent atom self = .ok (sel, t)) :
    ∃ t', selectAtomOver loop parent atom self' = .ok (sel, t') ∧ t.selection = t'.selection := by
  have hl := selectAtom_selection loop self atom parent
  rw [h, selectAtom_selection loop self' atom parent, hs] at hl
  cases h' : selectAtomOver loop parent atom self' with
  | error e => rw [h'] at hl; exact absurd hl (by simp [andSelection, Except.map])
  | ok r =>
    rw [h'] at hl
    obtain ⟨h1, h2⟩ := Prod.mk.inj (Except.ok.inj hl)
    exact ⟨r.2, by rw [← show r.1 = sel from h1], h2.symm⟩

end Emerge

end AutoGentoo
