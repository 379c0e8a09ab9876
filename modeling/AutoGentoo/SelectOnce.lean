import AutoGentoo.SelectionWays

/-! `select_atom` where iterating a package visits its ebuilds once: it returns, raises, or
ends with a comparison of versions that is not defined. -/

namespace AutoGentoo

open Scan

/-- A `for` statement that visits every ebuild once. -/
def visitOnce (test : Ebuild → Except Stop Bool) : List Ebuild → Except Stop (Option Ebuild)
  | [] => .ok none
  | ebuild :: rest => (test ebuild).bind fun m => if m then .ok (some ebuild) else visitOnce test rest

/-- `select_atom` over such an iteration. -/
def selectOnce : Option Nat → Atom → Call (Option Nat) := selectAtomOver visitOnce

/-- A computation without a state that comes back. -/
def Halts {α : Type} (r : Except Stop α) : Prop := r ≠ .error .diverged

theorem Halts.bind {α β : Type} {r : Except Stop α} {f : α → Except Stop β} (hr : Halts r)
    (hf : ∀ a, Halts (f a)) : Halts (r.bind f) := by
  cases r with
  | ok a => exact hf a
  | error e => exact fun h => hr (congrArg Except.error (Except.error.inj h))

theorem halts_ok {α : Type} (a : α) : Halts (.ok a) := by
  simp [Halts]

theorem halts_raised {α : Type} (e : PyError) : Halts (.error (.raised e) : Except Stop α) := by
  simp [Halts]

theorem halts_aborted {α : Type} : Halts (.error .aborted : Except Stop α) := by
  simp [Halts]

theorem matchesEbuild_halts (atom : Atom) (ebuild : Ebuild) : Halts (matchesEbuild atom ebuild) := by
  rw [matchesEbuild]
  split
  · exact halts_ok _
  · exact halts_aborted

theorem prevAtomsMatch_halts (ebuild : Ebuild) (allMatch : Bool) (atoms : List Atom) :
    Halts (prevAtomsMatch ebuild allMatch atoms) := by
  induction atoms generalizing allMatch with
  | nil => exact halts_ok _
  | cons prevAtom rest ih =>
    refine (matchesEbuild_halts prevAtom ebuild).bind fun m => ?_
    split_ifs
    · exact ih m
    · exact halts_ok _

theorem visitOnce_halts {test : Ebuild → Except Stop Bool} (h : ∀ e, Halts (test e))
    (l : List Ebuild) : Halts (visitOnce test l) := by
  induction l with
  | nil => exact halts_ok _
  | cons ebuild rest ih =>
    refine (h ebuild).bind fun m => ?_
    split_ifs
    · exact halts_ok _
    · exact ih

theorem firstMatch_halts (self : Emerge) (atom : Atom) (slots : Dict (Option (List Char)) Nat) :
    Halts (InstallPackage.firstMatch self atom slots) := by
  induction slots with
  | nil => exact halts_ok _
  | cons entry rest ih =>
    rw [InstallPackage.firstMatch]
    split
    · exact halts_raised _
    · refine (matchesEbuild_halts atom _).bind fun m => ?_
      split_ifs
      · exact halts_ok _
      · exact ih

theorem changeWithinSlot_halts (sel : Nat) (atom : Atom) (self : Emerge) :
    Halts (changeWithinSlotOver visitOnce sel atom self) := by
  rw [changeWithinSlotOver]
  split
  · exact halts_raised _
  · split
    · exact halts_raised _
    · split_ifs
      · exact halts_raised _
      · refine Halts.bind (visitOnce_halts ?_ _) fun _ => halts_ok _
        exact fun ebuild => (matchesEbuild_halts atom ebuild).bind fun m =>
          prevAtomsMatch_halts ebuild m _

theorem matchAtom_halts (pkg : InstallPackage) (key : List Char) (parent : Option Nat) (atom : Atom)
    (ebuild : Ebuild) (self : Emerge) :
    Halts (pkg.matchAtomOver visitOnce key parent atom ebuild self) := by
  refine (firstMatch_halts self atom _).bind fun found => ?_
  split
  · exact halts_ok _
  · exact halts_ok _
  · split
    · refine (firstMatch_halts self atom _).bind fun found => ?_
      split
      · exact halts_ok _
      · exact halts_ok _
    · split
      · exact halts_raised _
      · refine (matchesEbuild_halts atom _).bind fun m => ?_
        split_ifs
        · exact halts_ok _
        · refine (changeWithinSlot_halts _ atom self).bind fun r => ?_
          split_ifs
          · exact halts_ok _
          · exact halts_raised _

theorem selectOnce_halts (parent : Option Nat) (atom : Atom) (self : Emerge) :
    Halts (selectOnce parent atom self) := by
  rw [selectOnce, selectAtomOver]
  split
  · exact halts_aborted
  · exact halts_raised _
  · exact halts_raised _
  · split
    · exact matchAtom_halts _ _ _ _ _ _
    · exact halts_ok _

namespace Emerge

variable {self : Emerge} {sel : Nat} {selected : SelectedEbuild} {package : Package} {atom : Atom}

theorem changeWithinSlot_visitOnce (hsel : self.selected[sel]? = some selected)
    (hpkg : self.package selected.ebuild = some package) (hne : package.ebuilds ≠ []) :
    changeWithinSlotOver visitOnce sel atom self =
      (visitOnce (changeTest atom selected) package.ebuilds).map fun found =>
        (found.map fun ebuild => (true, self.changed sel selected ebuild)).getD (false, self) := by
  have hiter : ¬ package.iter = [] := hne
  simp only [changeWithinSlotOver, hsel, hpkg, if_neg hiter]
  show (visitOnce (changeTest atom selected) package.ebuilds).map _ = _
  congr 1
  funext found
  cases found <;> rfl

end Emerge

/-! ### Comparisons that are not defined -/

/-- The answer of the new atom is not defined, or that of the first recorded one that does
not match. -/
def SelectedEbuild.Undecided (self : SelectedEbuild) (atom : Atom) (ebuild : Ebuild) : Prop :=
  atomMatches atom ebuild = none ∨
    ∃ a, Reached (fun b => atomMatches b ebuild = some true) self.recorded a ∧ atomMatches a ebuild = none

namespace Emerge

/-- No object matches, the slot is taken, and looking for another ebuild for the object there comes
to one whose answer is not defined. -/
def ChangeUndefined (self : Emerge) (atom : Atom) : Prop :=
  ∃ ebuild pkg slot sel selected package candidate, self.Unmatched atom ebuild pkg ∧
    self.slot ebuild = some slot ∧ Dict.get pkg.selectedEbuildSlots (some slot) = some sel ∧
      self.selected[sel]? = some selected ∧ self.package selected.ebuild = some package ∧
        Reached (selected.Refuses atom) package.ebuilds candidate ∧ selected.Undecided atom candidate

/-- A comparison of versions is not defined that `select_atom` comes to, where all ebuilds of the
package are looked through for another. -/
def UndefinedOnce (self : Emerge) (atom : Atom) : Prop := self.Undefined atom ∨ self.ChangeUndefined atom

end Emerge

theorem matchesEbuild_aborted {atom : Atom} {ebuild : Ebuild} :
    matchesEbuild atom ebuild = .error .aborted ↔ atomMatches atom ebuild = none := by
  rw [matchesEbuild]
  cases atomMatches atom ebuild <;> simp

theorem prevAtomsMatch_aborted {ebuild : Ebuild} {allMatch : Bool} {l : List Atom} :
    prevAtomsMatch ebuild allMatch l = .error .aborted ↔
      ∃ a, Reached (fun b => atomMatches b ebuild = some true) l a ∧ atomMatches a ebuild = none := by
  induction l generalizing allMatch with
  | nil => exact iff_of_false (by simp [prevAtomsMatch]) fun ⟨_, h, _⟩ => not_reached_nil h
  | cons a l ih =>
    rw [prevAtomsMatch]
    simp only [reached_cons]
    cases hm : atomMatches a ebuild with
    | none =>
      rw [matchesEbuild_aborted.mpr hm]
      exact iff_of_true rfl ⟨a, .inl rfl, hm⟩
    | some b =>
      rw [matchesEbuild_ok.mpr hm]
      cases b with
      | false =>
        refine iff_of_false (by simp [Except.bind]) ?_
        rintro ⟨c, rfl | ⟨h, -⟩, hnone⟩
        · exact absurd (hm.symm.trans hnone) (by simp)
        · exact absurd h (by simp)
      | true =>
        show prevAtomsMatch ebuild true l = .error .aborted ↔ _
        rw [ih]
        constructor
        · rintro ⟨c, h, hnone⟩
          exact ⟨c, .inr ⟨rfl, h⟩, hnone⟩
        · rintro ⟨c, rfl | ⟨-, h⟩, hnone⟩
          · exact absurd (hm.symm.trans hnone) (by simp)
          · exact ⟨c, h, hnone⟩

theorem SelectedEbuild.changeTest_aborted_iff {self : SelectedEbuild} {atom : Atom} {ebuild : Ebuild} :
    changeTest atom self ebuild = .error .aborted ↔ self.Undecided atom ebuild := by
  rw [changeTest, Undecided]
  cases hm : atomMatches atom ebuild with
  | none =>
    rw [matchesEbuild_aborted.mpr hm]
    exact iff_of_true rfl (.inl rfl)
  | some b =>
    rw [matchesEbuild_ok.mpr hm]
    show prevAtomsMatch ebuild b self.recorded = .error .aborted ↔ _
    rw [prevAtomsMatch_aborted]
    exact (or_iff_right (by simp)).symm

theorem visitOnce_aborted {test : Ebuild → Except Stop Bool} {l : List Ebuild} :
    visitOnce test l = .error .aborted ↔
      ∃ e, Reached (fun x => test x = .ok false) l e ∧ test e = .error .aborted := by
  induction l with
  | nil => exact iff_of_false (by simp [visitOnce]) fun ⟨_, h, _⟩ => not_reached_nil h
  | cons x l ih =>
    rw [visitOnce]
    simp only [reached_cons]
    cases ht : test x with
    | error stop =>
      show (.error stop : Except Stop (Option Ebuild)) = .error .aborted ↔ _
      constructor
      · intro h
        exact ⟨x, .inl rfl, by rw [ht, Except.error.inj h]⟩
      · rintro ⟨e, rfl | ⟨h, -⟩, he⟩
        · exact congrArg Except.error (Except.error.inj (ht.symm.trans he))
        · exact absurd h (by simp)
    | ok m =>
      cases m with
      | true =>
        refine iff_of_false (by simp [Except.bind]) ?_
        rintro ⟨e, rfl | ⟨h, -⟩, he⟩
        · exact absurd (ht.symm.trans he) (by simp)
        · exact absurd h (by simp)
      | false =>
        show visitOnce test l = .error .aborted ↔ _
        rw [ih]
        constructor
        · rintro ⟨e, h, he⟩
          exact ⟨e, .inr ⟨rfl, h⟩, he⟩
        · rintro ⟨e, rfl | ⟨-, h⟩, he⟩
          · exact absurd (ht.symm.trans he) (by simp)
          · exact ⟨e, h, he⟩

namespace Emerge

variable {self : Emerge} {atom : Atom} {ebuild : Ebuild} {pkg : InstallPackage}

theorem Offers.unique {portage : Portage} {other : Ebuild} (h : portage.Offers atom ebuild)
    (h' : portage.Offers atom other) : other = ebuild := by
  have hsame := (Portage.matchAtom_some_iff.mpr h').symm.trans (Portage.matchAtom_some_iff.mpr h)
  simpa using hsame

theorem Selected.unique {other : Ebuild} {pkg' : InstallPackage} (h : self.Selected atom ebuild pkg)
    (h' : self.Selected atom other pkg') : other = ebuild ∧ pkg' = pkg := by
  obtain rfl := Offers.unique h.1 h'.1
  exact ⟨rfl, Option.some.inj (h'.2.symm.trans h.2)⟩

theorem changeWithinSlot_aborted_iff {sel : Nat} : changeWithinSlotOver visitOnce sel atom self = .error .aborted ↔
    ∃ selected package candidate, self.selected[sel]? = some selected ∧
      self.package selected.ebuild = some package ∧
        Reached (selected.Refuses atom) package.ebuilds candidate ∧ selected.Undecided atom candidate := by
  cases hs : self.selected[sel]? with
  | none =>
    rw [changeWithinSlotOver, hs]
    refine iff_of_false (by simp) ?_
    rintro ⟨_, _, _, h, -⟩
    exact absurd h (by simp)
  | some selected =>
    cases hp : self.package selected.ebuild with
    | none =>
      simp only [changeWithinSlotOver, hs, hp]
      refine iff_of_false (by simp) ?_
      rintro ⟨selected', package, _, h, hp', -⟩
      rw [← Option.some.inj h, hp] at hp'
      exact absurd hp' (by simp)
    | some package =>
      have hsearch : changeWithinSlotOver visitOnce sel atom self = .error .aborted ↔
          visitOnce (changeTest atom selected) package.ebuilds = .error .aborted := by
        by_cases hne : package.ebuilds = []
        · have hiter : package.iter = [] := hne
          simp [changeWithinSlotOver, hs, hp, hiter, hne, visitOnce]
        · rw [changeWithinSlot_visitOnce hs hp hne]
          cases visitOnce (changeTest atom selected) package.ebuilds <;> simp [Except.map]
      have hrefuses : (fun e => changeTest atom selected e = .ok false) = selected.Refuses atom :=
        funext fun e => propext SelectedEbuild.changeTest_false_iff
      rw [hsearch, visitOnce_aborted, hrefuses]
      constructor
      · rintro ⟨e, he, hnone⟩
        exact ⟨selected, package, e, rfl, hp, he, SelectedEbuild.changeTest_aborted_iff.mp hnone⟩
      · rintro ⟨_, _, e, h, hp', he, hnone⟩
        obtain rfl := Option.some.inj h
        obtain rfl := Option.some.inj (hp.symm.trans hp')
        exact ⟨e, he, SelectedEbuild.changeTest_aborted_iff.mpr hnone⟩

/-- What `match_atom` makes of the answer of `change_within_slot` does not abort by itself. -/
theorem changed_aborted_iff {sel : Nat} {change : Except Stop (Bool × Emerge)} :
    (change.bind fun r => if r.1 then .ok (some sel, r.2) else .error (.raised .notImplemented)) =
      .error .aborted ↔ change = .error .aborted := by
  cases change with
  | error stop => simp [Except.bind]
  | ok r =>
    obtain ⟨b, t⟩ := r
    cases b <;> simp [Except.bind]

theorem matchAtom_aborted_iff {parent : Option Nat} (h : self.Selected atom ebuild pkg) :
    pkg.matchAtomOver visitOnce ebuild.packageKey parent atom ebuild self = .error .aborted ↔
      self.UndefinedOnce atom := by
  have hincomparable : ¬ self.portage.Incomparable atom := fun hi => absurd
    ((Portage.matchAtom_none_iff.mpr hi).symm.trans (Portage.matchAtom_some_iff.mpr h.1)) (by simp)
  have hundefined : self.Undefined atom ↔
      InstallPackage.firstMatch self atom pkg.selectedEbuildSlots = .error .aborted := by
    rw [InstallPackage.firstMatch_aborted_iff, Undefined, or_iff_right hincomparable]
    constructor
    · rintro ⟨_, _, p, hselected, hp, hnone⟩
      obtain ⟨rfl, rfl⟩ := h.unique hselected
      exact ⟨p, hp, hnone⟩
    · rintro ⟨p, hp, hnone⟩
      exact ⟨ebuild, pkg, p, h, hp, hnone⟩
  have hchange : self.ChangeUndefined atom →
      InstallPackage.firstMatch self atom pkg.selectedEbuildSlots = .ok none := by
    rintro ⟨_, _, _, _, _, _, _, hunmatched, -⟩
    obtain ⟨rfl, rfl⟩ := h.unique hunmatched.1
    exact InstallPackage.firstMatch_none_iff.mpr hunmatched.2
  rw [UndefinedOnce, hundefined, InstallPackage.matchAtomOver]
  cases hfirst : InstallPackage.firstMatch self atom pkg.selectedEbuildSlots with
  | error stop =>
    rw [or_iff_left fun hc => absurd (hfirst.symm.trans (hchange hc)) (by simp)]
    simp [Except.bind]
  | ok found =>
    cases found with
    | some sel =>
      refine iff_of_false (by simp [Except.bind]) ?_
      rintro (hab | hc)
      · exact absurd hab (by simp)
      · exact absurd (hfirst.symm.trans (hchange hc)) (by simp)
    | none =>
      have hunmatched : self.Unmatched atom ebuild pkg := ⟨h, InstallPackage.firstMatch_none_iff.mp hfirst⟩
      rw [or_iff_right (by simp)]
      simp only [Except.bind]
      cases hslot : self.slot ebuild with
      | none =>
        refine iff_of_false (by simp) ?_
        rintro ⟨_, _, _, _, _, _, _, hun, hsl, -⟩
        obtain ⟨rfl, -⟩ := h.unique hun.1
        exact absurd (hslot.symm.trans hsl) (by simp)
      | some slot =>
        cases hget : Dict.get pkg.selectedEbuildSlots (some slot) with
        | none =>
          simp only [hget]
          refine iff_of_false (by simp [InstallPackage.addAtom, Except.map]) ?_
          rintro ⟨_, _, _, _, _, _, _, hun, hsl, hg, -⟩
          obtain ⟨rfl, rfl⟩ := h.unique hun.1
          obtain rfl := Option.some.inj (hslot.symm.trans hsl)
          exact absurd (hget.symm.trans hg) (by simp)
        | some sel =>
          obtain ⟨selected, hs, hm⟩ := InstallPackage.firstMatch_none hfirst _ (Dict.mem_of_get hget)
          simp only [hget, hs, hm, Bool.false_eq_true, if_false]
          refine changed_aborted_iff.trans (changeWithinSlot_aborted_iff.trans ?_)
          constructor
          · rintro ⟨selected, package, e, hs, hp, he, hnone⟩
            exact ⟨ebuild, pkg, slot, sel, selected, package, e, hunmatched, hslot, hget, hs, hp, he, hnone⟩
          · rintro ⟨_, _, _, _, selected, package, e, hun, hsl, hg, hs, hp, he, hnone⟩
            obtain ⟨rfl, rfl⟩ := h.unique hun.1
            obtain rfl := Option.some.inj (hslot.symm.trans hsl)
            obtain rfl := Option.some.inj (hget.symm.trans hg)
            exact ⟨selected, package, e, hs, hp, he, hnone⟩

theorem selectOnce_aborted_iff {parent : Option Nat} :
    selectOnce parent atom self = .error .aborted ↔ self.UndefinedOnce atom := by
  have hoffers : self.UndefinedOnce atom →
      self.portage.Incomparable atom ∨ ∃ ebuild pkg, self.Selected atom ebuild pkg := by
    rintro ((hi | ⟨e, p, _, hs, -⟩) | ⟨e, p, _, _, _, _, _, hu, -⟩)
    · exact .inl hi
    · exact .inr ⟨e, p, hs⟩
    · exact .inr ⟨e, p, hu.1⟩
  rw [selectOnce, selectAtomOver]
  cases hfound : self.portage.matchAtom atom with
  | none => exact iff_of_true rfl (.inl (.inl (Portage.matchAtom_none_iff.mp hfound)))
  | some r =>
    have hnot : ¬ self.portage.Incomparable atom := fun hi =>
      absurd (hfound.symm.trans (Portage.matchAtom_none_iff.mpr hi)) (by simp)
    have hsome : self.UndefinedOnce atom → ∃ ebuild pkg, r = .ok (some ebuild) ∧
        Dict.get self.selectedPackages ebuild.packageKey = some pkg := by
      intro hu
      obtain ⟨e, p, hs⟩ := (hoffers hu).resolve_left hnot
      exact ⟨e, p, Option.some.inj (hfound.symm.trans (Portage.matchAtom_some_iff.mpr hs.1)), hs.2⟩
    rcases r with e | _ | ebuild
    · exact iff_of_false (by simp) fun hu => by obtain ⟨_, _, he, -⟩ := hsome hu; exact absurd he (by simp)
    · exact iff_of_false (by simp) fun hu => by obtain ⟨_, _, he, -⟩ := hsome hu; exact absurd he (by simp)
    · cases hpkg : Dict.get self.selectedPackages ebuild.packageKey with
      | none =>
        simp only [hpkg]
        refine iff_of_false (by simp [InstallPackage.addAtom, Except.map]) fun hu => ?_
        obtain ⟨e, p, he, hget⟩ := hsome hu
        obtain rfl : ebuild = e := by simpa using he
        exact absurd (hpkg.symm.trans hget) (by simp)
      | some pkg =>
        simp only [hpkg]
        exact matchAtom_aborted_iff ⟨Portage.matchAtom_some_iff.mp hfound, hpkg⟩

end Emerge

end AutoGentoo
