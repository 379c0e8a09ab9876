import AutoGentoo.EmergeRun

/-! The tables of selected ebuilds, by package and slot, and what `select_atom`
does to them. -/

namespace AutoGentoo

namespace Emerge

/-- The object in the table of a package at a slot. -/
def entry (self : Emerge) (key : List Char) (slot : Option (List Char)) : Option Nat :=
  (Dict.get self.selectedPackages key).bind fun pkg => Dict.get pkg.selectedEbuildSlots slot

/-- The state after `add_atom`. -/
def created (self : Emerge) (key : List Char) (pkg : InstallPackage) (parent : Option Nat)
    (atom : Atom) (ebuild : Ebuild) : Emerge :=
  { self with
    selected := self.selected ++ [SelectedEbuild.init parent atom ebuild]
    selectedPackages := Dict.set self.selectedPackages key { pkg with
      selectedEbuildSlots :=
        Dict.set pkg.selectedEbuildSlots (self.slot ebuild) self.selected.length } }

theorem entry_created (self : Emerge) (key : List Char) (pkg : InstallPackage)
    (parent : Option Nat) (atom : Atom) (ebuild : Ebuild) (key' : List Char)
    (slot : Option (List Char)) : (self.created key pkg parent atom ebuild).entry key' slot =
      if key = key' then
        if self.slot ebuild = slot then some self.selected.length
        else Dict.get pkg.selectedEbuildSlots slot
      else self.entry key' slot := by
  rw [entry, created, Dict.get_set]
  by_cases hkey : key = key'
  · rw [if_pos hkey, if_pos hkey, Option.bind_some, Dict.get_set]
  · rw [if_neg hkey, if_neg hkey, entry]

theorem entry_changed (self : Emerge) (sel : Nat) (selected : SelectedEbuild) (ebuild : Ebuild)
    (key : List Char) (slot : Option (List Char)) :
    (self.changed sel selected ebuild).entry key slot = self.entry key slot := rfl

/-- Every object in a table is there. -/
def Filed (self : Emerge) : Prop :=
  ∀ key slot sel, self.entry key slot = some sel → sel < self.selected.length

/-- The ebuild in the table of a package at a slot. -/
def held (self : Emerge) (key : List Char) (slot : Option (List Char)) : Option Ebuild :=
  (self.entry key slot).bind fun sel => (self.selected[sel]?).map SelectedEbuild.ebuild

theorem held_some {self : Emerge} {key : List Char} {slot : Option (List Char)} {ebuild : Ebuild} :
    self.held key slot = some ebuild ↔ ∃ sel selected, self.entry key slot = some sel ∧
      self.selected[sel]? = some selected ∧ selected.ebuild = ebuild := by
  simp [held, Option.bind_eq_some_iff]

theorem way_cases (self : Emerge) (atom : Atom) : self.way atom = .aborts ∨ self.way atom = .raises ∨
    ∃ ebuild, self.portage.matchAtom atom = some (.ok (some ebuild)) ∧
      ((∃ pkg, Dict.get self.selectedPackages ebuild.packageKey = some pkg ∧
        self.way atom = self.packageWay atom pkg ebuild) ∨
      (Dict.get self.selectedPackages ebuild.packageKey = none ∧
        self.way atom = .creates atom.key { key := atom.key, selectedEbuildSlots := [] } ebuild)) := by
  rw [way]
  cases hfound : self.portage.matchAtom atom with
  | none => exact .inl rfl
  | some r =>
    cases r with
    | error e => exact .inr (.inl rfl)
    | ok found =>
      cases found with
      | none => exact .inr (.inl rfl)
      | some ebuild =>
        refine .inr (.inr ⟨ebuild, rfl, ?_⟩)
        cases hpkg : Dict.get self.selectedPackages ebuild.packageKey with
        | some pkg => exact .inl ⟨pkg, rfl, by simp only [hpkg]⟩
        | none => exact .inr ⟨rfl, by simp only [hpkg]⟩

theorem packageWay_creates {self : Emerge} {atom : Atom} {pkg pkg' : InstallPackage}
    {ebuild ebuild' : Ebuild} {key : List Char}
    (h : self.packageWay atom pkg ebuild = .creates key pkg' ebuild') :
    key = ebuild.packageKey ∧ pkg' = pkg ∧ ebuild' = ebuild ∧
      ∃ slot, self.slot ebuild = some slot ∧ Dict.get pkg.selectedEbuildSlots (some slot) = none := by
  rw [packageWay] at h
  split at h
  · exact absurd h (by simp)
  · exact absurd h (by simp)
  · exact absurd h (by simp)
  · split at h
    · exact absurd h (by simp)
    · next slot hslot =>
      split at h
      · next hnone =>
        obtain ⟨rfl, rfl, rfl⟩ := Way.creates.inj h
        exact ⟨rfl, rfl, rfl, slot, hslot, hnone⟩
      · split at h <;> exact absurd h (by simp)

/-- A new table starts empty, and another is the one that was there. -/
theorem way_creates {self : Emerge} {atom : Atom} {key : List Char} {pkg : InstallPackage}
    {ebuild : Ebuild} (h : self.way atom = .creates key pkg ebuild) :
    pkg.selectedEbuildSlots = [] ∨ (Dict.get self.selectedPackages key = some pkg ∧
      Dict.get pkg.selectedEbuildSlots (self.slot ebuild) = none) := by
  rcases way_cases self atom with hw | hw | ⟨found, -, ⟨pkg', hpkg, hw⟩ | ⟨-, hw⟩⟩
  · exact absurd (hw.symm.trans h) (by simp)
  · exact absurd (hw.symm.trans h) (by simp)
  · obtain ⟨rfl, rfl, rfl, slot, hslot, hnone⟩ := packageWay_creates (hw.symm.trans h)
    exact .inr ⟨hpkg, hslot ▸ hnone⟩
  · obtain ⟨-, rfl, -⟩ := Way.creates.inj (hw.symm.trans h)
    exact .inl rfl

/-- An object that is to change is in a table. -/
theorem Changes.entry {self : Emerge} {atom : Atom} {sel : Nat} {candidate : Ebuild}
    (h : self.Changes atom sel candidate) : ∃ key slot, self.entry key slot = some sel := by
  obtain ⟨ebuild, pkg, slot, ⟨⟨-, hpkg⟩, -⟩, -, hget, -⟩ := h
  exact ⟨ebuild.packageKey, some slot, by rw [Emerge.entry, hpkg, Option.bind_some, hget]⟩

/-- The object changes to the candidate: the atoms that decide for it match. -/
def Switches (self : Emerge) (atom : Atom) (sel : Nat) (candidate : Ebuild) : Prop :=
  ∃ selected, self.selected[sel]? = some selected ∧ selected.Accepts atom candidate

/-- The state after `change_within_slot` where it meets this candidate. -/
def switched (self : Emerge) (atom : Atom) (sel : Nat) (candidate : Ebuild) : Emerge :=
  match self.selected[sel]? with
  | none => self
  | some selected =>
    match changeTest atom selected candidate with
    | .ok true => self.changed sel selected candidate
    | _ => self

/-- The state a call of `select_atom` leads to. -/
def selects (self : Emerge) (parent : Option Nat) (atom : Atom) : Emerge :=
  match self.way atom with
  | .creates key pkg ebuild => self.created key pkg parent atom ebuild
  | .changes sel candidate => self.switched atom sel candidate
  | _ => self

theorem switched_cases (self : Emerge) (atom : Atom) (sel : Nat) (candidate : Ebuild) :
    (∃ selected, self.selected[sel]? = some selected ∧ self.Switches atom sel candidate ∧
      self.switched atom sel candidate = self.changed sel selected candidate) ∨
      (¬ self.Switches atom sel candidate ∧ self.switched atom sel candidate = self) := by
  rw [switched]
  cases hs : self.selected[sel]? with
  | none =>
    refine .inr ⟨?_, rfl⟩
    rintro ⟨selected, hs', -⟩
    exact absurd (hs.symm.trans hs') (by simp)
  | some selected =>
    by_cases htest : changeTest atom selected candidate = .ok true
    · exact .inl ⟨selected, rfl, ⟨selected, hs, SelectedEbuild.changeTest_true_iff.mp htest⟩, by simp only [htest]⟩
    · refine .inr ⟨?_, ?_⟩
      · rintro ⟨selected', hs', haccepts⟩
        rw [hs, Option.some.injEq] at hs'
        exact htest (SelectedEbuild.changeTest_true_iff.mpr (hs' ▸ haccepts))
      · simp only

theorem selectAtom_selects (self : Emerge) (parent : Option Nat) (atom : Atom) :
    (∃ r, selectAtom parent atom self = .ok (r, self.selects parent atom)) ∨
      (∃ e, selectAtom parent atom self = .error e) ∧ self.selects parent atom = self := by
  have hw := selectAtom_went self parent atom
  rw [selects]
  cases hway : self.way atom with
  | raises =>
    rw [hway] at hw
    obtain ⟨e, he⟩ := hw
    exact .inr ⟨⟨_, he⟩, rfl⟩
  | aborts =>
    rw [hway] at hw
    obtain ⟨e, he, -⟩ := hw
    exact .inr ⟨⟨_, he⟩, rfl⟩
  | reuses sel =>
    rw [hway] at hw
    exact .inl ⟨_, hw.1⟩
  | unknownSlot =>
    rw [hway] at hw
    exact .inl ⟨_, hw⟩
  | creates key pkg ebuild =>
    rw [hway] at hw
    exact .inl ⟨_, hw⟩
  | changes sel candidate =>
    rw [hway] at hw
    obtain ⟨selected, hs, he⟩ := hw
    simp only [switched, hs]
    cases htest : changeTest atom selected candidate with
    | error e => exact .inr ⟨⟨e, by rw [he, htest]; rfl⟩, rfl⟩
    | ok m =>
      cases m with
      | true => exact .inl ⟨some sel, by rw [he, htest]; rfl⟩
      | false => exact .inr ⟨⟨.diverged, by rw [he, htest]; rfl⟩, rfl⟩

theorem held_created_new (self : Emerge) (key : List Char) (pkg : InstallPackage)
    (parent : Option Nat) (atom : Atom) (ebuild : Ebuild) :
    (self.created key pkg parent atom ebuild).held key (self.slot ebuild) = some ebuild := by
  refine held_some.mpr ⟨self.selected.length, SelectedEbuild.init parent atom ebuild, ?_, ?_, rfl⟩
  · rw [entry_created, if_pos rfl, if_pos rfl]
  · exact List.getElem?_concat_length

/-- What a table holds after `add_atom` is the new ebuild or was held before. -/
theorem held_created {self : Emerge} (hf : self.Filed) {key : List Char} {pkg : InstallPackage}
    {ebuild : Ebuild}
    (hpkg : pkg.selectedEbuildSlots = [] ∨ (Dict.get self.selectedPackages key = some pkg ∧
      Dict.get pkg.selectedEbuildSlots (self.slot ebuild) = none))
    {parent : Option Nat} {atom : Atom} {key' : List Char} {slot : Option (List Char)} {e : Ebuild}
    (h : (self.created key pkg parent atom ebuild).held key' slot = some e) :
    (key = key' ∧ self.slot ebuild = slot ∧ e = ebuild) ∨ self.held key' slot = some e := by
  obtain ⟨sel, selected, hentry, hs, rfl⟩ := held_some.mp h
  have hold (he : self.entry key' slot = some sel) : self.held key' slot = some selected.ebuild := by
    refine held_some.mpr ⟨sel, selected, he, ?_, rfl⟩
    rw [← hs]
    exact (List.getElem?_append_left (hf key' slot sel he)).symm
  rw [entry_created] at hentry
  by_cases hkey : key = key'
  · subst hkey
    rw [if_pos rfl] at hentry
    by_cases hslot : self.slot ebuild = slot
    · rw [if_pos hslot, Option.some.injEq] at hentry
      subst hentry
      rw [show (self.created key pkg parent atom ebuild).selected[self.selected.length]? =
        some (SelectedEbuild.init parent atom ebuild) from List.getElem?_concat_length,
        Option.some.injEq] at hs
      exact .inl ⟨rfl, hslot, hs ▸ rfl⟩
    · rw [if_neg hslot] at hentry
      rcases hpkg with hnil | ⟨hget, -⟩
      · rw [hnil] at hentry
        exact absurd hentry (by simp)
      · exact .inr (hold (by rw [entry, hget, Option.bind_some, hentry]))
  · rw [if_neg hkey] at hentry
    exact .inr (hold hentry)

theorem Filed.created {self : Emerge} (hf : self.Filed) {key : List Char} {pkg : InstallPackage}
    {ebuild : Ebuild}
    (hpkg : pkg.selectedEbuildSlots = [] ∨ (Dict.get self.selectedPackages key = some pkg ∧
      Dict.get pkg.selectedEbuildSlots (self.slot ebuild) = none))
    (parent : Option Nat) (atom : Atom) : (self.created key pkg parent atom ebuild).Filed := by
  intro key' slot sel h
  have hlen : (self.created key pkg parent atom ebuild).selected.length = self.selected.length + 1 :=
    List.length_append
  rw [entry_created] at h
  rw [hlen]
  split_ifs at h with hkey hslot
  · obtain rfl := Option.some.inj h
    exact Nat.lt_succ_self _
  · rcases hpkg with hnil | ⟨hget, -⟩
    · rw [hnil] at h
      exact absurd h (by simp)
    · exact Nat.lt_succ_of_lt (hf key slot sel (by rw [entry, hget, Option.bind_some, h]))
  · exact Nat.lt_succ_of_lt (hf key' slot sel h)

theorem held_changed {self : Emerge} {sel : Nat} {selected : SelectedEbuild}
    (hs : self.selected[sel]? = some selected) (candidate : Ebuild) (key : List Char)
    (slot : Option (List Char)) : (self.changed sel selected candidate).held key slot =
      if self.entry key slot = some sel then some candidate else self.held key slot := by
  rw [held, held, entry_changed]
  cases hentry : self.entry key slot with
  | none => rfl
  | some sel' =>
    by_cases h : sel' = sel
    · subst h
      rw [if_pos rfl, Option.bind_some, changed,
        List.getElem?_set_self (List.getElem?_eq_some_iff.mp hs).1]
      rfl
    · rw [if_neg fun he => h (Option.some.inj he), Option.bind_some, Option.bind_some, changed,
        List.getElem?_set_ne fun he => h he.symm]

theorem Filed.changed {self : Emerge} (hf : self.Filed) (sel : Nat) (selected : SelectedEbuild)
    (candidate : Ebuild) : (self.changed sel selected candidate).Filed := by
  intro key slot sel' h
  rw [Emerge.changed, List.length_set]
  exact hf key slot sel' h

theorem Filed.selects {self : Emerge} (hf : self.Filed) (parent : Option Nat) (atom : Atom) :
    (self.selects parent atom).Filed := by
  rw [Emerge.selects]
  split
  · next hway => exact hf.created (way_creates hway) parent atom
  · next sel candidate _ =>
    rcases switched_cases self atom sel candidate with ⟨selected, -, -, he⟩ | ⟨-, he⟩
    · rw [he]
      exact hf.changed _ _ _
    · rw [he]
      exact hf
  · exact hf

/-- What a call of `select_atom` can do to the state, whatever iterating a package
does. -/
inductive SelectEffect (self : Emerge) (parent : Option Nat) (atom : Atom) : Emerge → Prop
  | same : SelectEffect self parent atom self
  | first {ebuild : Ebuild} (hfound : self.portage.matchAtom atom = some (.ok (some ebuild)))
      (hnone : Dict.get self.selectedPackages ebuild.packageKey = none) :
      SelectEffect self parent atom
        (self.created atom.key { key := atom.key, selectedEbuildSlots := [] } parent atom ebuild)
  | slot {ebuild : Ebuild} {pkg : InstallPackage} {slot : List Char}
      (hfound : self.portage.matchAtom atom = some (.ok (some ebuild)))
      (hpkg : Dict.get self.selectedPackages ebuild.packageKey = some pkg)
      (hslot : self.slot ebuild = some slot)
      (hfree : Dict.get pkg.selectedEbuildSlots (some slot) = none) :
      SelectEffect self parent atom (self.created ebuild.packageKey pkg parent atom ebuild)
  | changed {sel : Nat} {selected : SelectedEbuild} (hs : self.selected[sel]? = some selected)
      (candidate : Ebuild) : SelectEffect self parent atom (self.changed sel selected candidate)

theorem changeWithinSlotOver_ok {loop : ForLoop} {self t : Emerge} {sel : Nat} {atom : Atom} {b : Bool}
    (h : changeWithinSlotOver loop sel atom self = .ok (b, t)) : t = self ∨
      ∃ selected candidate, self.selected[sel]? = some selected ∧
        t = self.changed sel selected candidate := by
  rw [changeWithinSlotOver] at h
  split at h
  · exact absurd h (by simp)
  · next selected hs =>
    split at h
    · exact absurd h (by simp)
    · split at h
      · exact absurd h (by simp)
      · next package _ _ =>
        cases hl : loop _ package.iter with
        | error e => exact absurd (hl ▸ h) (by simp [Except.map])
        | ok found =>
          cases found with
          | none =>
            rw [hl] at h
            exact .inl (Prod.mk.inj (Except.ok.inj h)).2.symm
          | some candidate =>
            rw [hl] at h
            exact .inr ⟨selected, candidate, hs, (Prod.mk.inj (Except.ok.inj h)).2.symm⟩

theorem matchAtomOver_effect {loop : ForLoop} {self t : Emerge} {parent : Option Nat} {atom : Atom}
    {ebuild : Ebuild} {pkg : InstallPackage} {r : Option Nat}
    (hfound : self.portage.matchAtom atom = some (.ok (some ebuild)))
    (hpkg : Dict.get self.selectedPackages ebuild.packageKey = some pkg)
    (h : pkg.matchAtomOver loop ebuild.packageKey parent atom ebuild self = .ok (r, t)) :
    SelectEffect self parent atom t := by
  rw [InstallPackage.matchAtomOver] at h
  cases hfirst : InstallPackage.firstMatch self atom pkg.selectedEbuildSlots with
  | error e => exact absurd (hfirst ▸ h) (by simp [Except.bind])
  | ok found =>
    simp only [hfirst, Except.bind] at h
    cases found with
    | some sel =>
      obtain ⟨-, rfl⟩ := Prod.mk.inj (Except.ok.inj h)
      exact .same
    | none =>
      cases hslot : self.slot ebuild with
      | none =>
        rw [hslot] at h
        obtain ⟨-, rfl⟩ := Prod.mk.inj (Except.ok.inj h)
        exact .same
      | some slot =>
        simp only [hslot] at h
        cases hget : Dict.get pkg.selectedEbuildSlots (some slot) with
        | none =>
          simp only [hget] at h
          obtain ⟨-, rfl⟩ := Prod.mk.inj (Except.ok.inj h)
          exact .slot hfound hpkg hslot hget
        | some sel =>
          simp only [hget] at h
          cases hs : self.selected[sel]? with
          | none => exact absurd (hs ▸ h) (by simp)
          | some selected =>
            simp only [hs] at h
            cases hm : matchesEbuild atom selected.ebuild with
            | error e => exact absurd (hm ▸ h) (by simp)
            | ok m =>
              simp only [hm] at h
              cases m with
              | true =>
                obtain ⟨-, rfl⟩ := Prod.mk.inj (Except.ok.inj h)
                exact .same
              | false =>
                cases hc : changeWithinSlotOver loop sel atom self with
                | error e => exact absurd (hc ▸ h) (by simp)
                | ok p =>
                  obtain ⟨b, t'⟩ := p
                  cases b with
                  | false => exact absurd (hc ▸ h) (by simp)
                  | true =>
                    rw [hc] at h
                    obtain ⟨-, rfl⟩ := Prod.mk.inj (Except.ok.inj h)
                    rcases changeWithinSlotOver_ok hc with rfl | ⟨selected', candidate, hs', rfl⟩
                    · exact .same
                    · exact .changed hs' candidate

theorem selectAtomOver_effect {loop : ForLoop} {self t : Emerge} {parent : Option Nat} {atom : Atom}
    {r : Option Nat} (h : selectAtomOver loop parent atom self = .ok (r, t)) :
    SelectEffect self parent atom t := by
  rw [selectAtomOver] at h
  cases hfound : self.portage.matchAtom atom with
  | none => exact absurd (hfound ▸ h) (by simp)
  | some m =>
    rw [hfound] at h
    cases m with
    | error e => exact absurd h (by simp)
    | ok found =>
      cases found with
      | none => exact absurd h (by simp)
      | some ebuild =>
        simp only at h
        cases hpkg : Dict.get self.selectedPackages ebuild.packageKey with
        | some pkg =>
          rw [hpkg] at h
          exact matchAtomOver_effect hfound hpkg h
        | none =>
          rw [hpkg] at h
          obtain ⟨-, rfl⟩ := Prod.mk.inj (Except.ok.inj h)
          exact .first hfound hpkg

end Emerge

end AutoGentoo
