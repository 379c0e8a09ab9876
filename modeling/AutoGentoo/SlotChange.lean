import AutoGentoo.RegenerateEnds
import AutoGentoo.PackageMatch

/-! What an answer of `change_within_slot` says, where iterating a package visits its
ebuilds once. -/

namespace AutoGentoo

namespace Emerge

/-- The new atom and all recorded ones match, and the slot is the one of the present ebuild. -/
def FitsSlot (self : Emerge) (selected : SelectedEbuild) (atom : Atom) (ebuild : Ebuild) : Prop :=
  atomMatches atom ebuild = some true ∧ (∀ a ∈ selected.recorded, atomMatches a ebuild = some true) ∧
    (self.file ebuild).slot = (self.file selected.ebuild).slot

/-- What the two answers of `change_within_slot` are to say. -/
structure ChangeSound (emerge : Emerge) (sel : Nat) (selected : SelectedEbuild) (package : Package)
    (atom : Atom) : Prop where
  changed : ∀ t, changeWithinSlotOver visitOnce sel atom emerge = .ok (true, t) →
    ∃ ebuild ∈ package.ebuilds,
      t = emerge.changed sel selected ebuild ∧ emerge.FitsSlot selected atom ebuild
  kept : ∀ t, changeWithinSlotOver visitOnce sel atom emerge = .ok (false, t) →
    t = emerge ∧ ∀ ebuild ∈ package.ebuilds, ¬ emerge.FitsSlot selected atom ebuild

end Emerge

theorem visitOnce_some {test : Ebuild → Except Stop Bool} {l : List Ebuild} {e : Ebuild} :
    visitOnce test l = .ok (some e) ↔ ∃ front back, l = front ++ e :: back ∧
      (∀ x ∈ front, test x = .ok false) ∧ test e = .ok true := by
  induction l with
  | nil => simp [visitOnce]
  | cons x l ih =>
    rw [visitOnce]
    constructor
    · intro h
      cases ht : test x with
      | error stop => simp [ht, Except.bind] at h
      | ok m =>
        rw [ht] at h
        cases m with
        | true =>
          obtain rfl : x = e := by simpa [Except.bind] using h
          exact ⟨[], l, rfl, by simp, ht⟩
        | false =>
          obtain ⟨front, back, rfl, hfront, he⟩ := ih.mp h
          exact ⟨x :: front, back, rfl, List.forall_mem_cons.mpr ⟨ht, hfront⟩, he⟩
    · rintro ⟨front, back, hl, hfront, he⟩
      cases front with
      | nil =>
        obtain ⟨rfl, rfl⟩ := List.cons.inj hl
        rw [he]
        rfl
      | cons y front =>
        obtain ⟨rfl, rfl⟩ := List.cons.inj hl
        obtain ⟨hx, hrest⟩ := List.forall_mem_cons.mp hfront
        rw [hx]
        exact ih.mpr ⟨front, back, rfl, hrest, he⟩

theorem visitOnce_none {test : Ebuild → Except Stop Bool} {l : List Ebuild} :
    visitOnce test l = .ok none ↔ ∀ x ∈ l, test x = .ok false := by
  induction l with
  | nil => simp [visitOnce]
  | cons x l ih =>
    rw [visitOnce, List.forall_mem_cons, ← ih]
    cases test x with
    | error stop => simp [Except.bind]
    | ok m => cases m <;> simp [Except.bind]

namespace Emerge

variable {self : Emerge} {sel : Nat} {selected : SelectedEbuild} {package : Package} {atom : Atom}

theorem answer_true_iff (hsel : self.selected[sel]? = some selected)
    (hpkg : self.package selected.ebuild = some package) (hne : package.ebuilds ≠ []) {t : Emerge} :
    changeWithinSlotOver visitOnce sel atom self = .ok (true, t) ↔ ∃ ebuild,
      visitOnce (changeTest atom selected) package.ebuilds = .ok (some ebuild) ∧
        t = self.changed sel selected ebuild := by
  rw [changeWithinSlot_visitOnce hsel hpkg hne]
  cases visitOnce (changeTest atom selected) package.ebuilds with
  | error stop => simp [Except.map]
  | ok found => cases found <;> simp [Except.map, eq_comm]

theorem answer_false_iff (hsel : self.selected[sel]? = some selected)
    (hpkg : self.package selected.ebuild = some package) (hne : package.ebuilds ≠ []) {t : Emerge} :
    changeWithinSlotOver visitOnce sel atom self = .ok (false, t) ↔
      visitOnce (changeTest atom selected) package.ebuilds = .ok none ∧ t = self := by
  rw [changeWithinSlot_visitOnce hsel hpkg hne]
  cases visitOnce (changeTest atom selected) package.ebuilds with
  | error stop => simp [Except.map]
  | ok found => cases found <;> simp [Except.map, eq_comm]

theorem no_answer_of_nil (hsel : self.selected[sel]? = some selected)
    (hpkg : self.package selected.ebuild = some package) (hnil : package.ebuilds = []) (b : Bool) (t : Emerge) :
    changeWithinSlotOver visitOnce sel atom self ≠ .ok (b, t) := by
  have hiter : package.iter = [] := hnil
  intro h
  simp [changeWithinSlotOver, hsel, hpkg, hiter] at h

theorem changed_inj (hsel : self.selected[sel]? = some selected) {e e' : Ebuild}
    (h : self.changed sel selected e = self.changed sel selected e') : e = e' := by
  have hlt := (List.getElem?_eq_some_iff.mp hsel).1
  have hget : (self.changed sel selected e).selected[sel]? = (self.changed sel selected e').selected[sel]? :=
    congrArg (fun t : Emerge => t.selected[sel]?) h
  simpa [changed, hlt] using hget

/-- The first ebuild that is accepted is one the new atom matches, in the slot. -/
theorem changeSound_iff (hsel : self.selected[sel]? = some selected)
    (hpkg : self.package selected.ebuild = some package) :
    self.ChangeSound sel selected package atom ↔ ∀ front ebuild back, package.ebuilds = front ++ ebuild :: back →
      (∀ x ∈ front, selected.Refuses atom x) → selected.Accepts atom ebuild →
        atomMatches atom ebuild = some true ∧ (self.file ebuild).slot = (self.file selected.ebuild).slot := by
  by_cases hne : package.ebuilds = []
  · constructor
    · intro _ front ebuild back hl
      exact absurd (hne.symm.trans hl) (by simp)
    · intro _
      exact { changed := fun t h => absurd h (no_answer_of_nil hsel hpkg hne true t)
              kept := fun t h => absurd h (no_answer_of_nil hsel hpkg hne false t) }
  · constructor
    · intro h front ebuild back hl hfront haccept
      have hfound : visitOnce (changeTest atom selected) package.ebuilds = .ok (some ebuild) := by
        apply visitOnce_some.mpr
        refine ⟨front, back, hl, fun x hx => ?_, SelectedEbuild.changeTest_true_iff.mpr haccept⟩
        exact SelectedEbuild.changeTest_false_iff.mpr (hfront x hx)
      obtain ⟨e, -, he, hfits⟩ := h.changed _ ((answer_true_iff hsel hpkg hne).mpr ⟨ebuild, hfound, rfl⟩)
      obtain rfl := changed_inj hsel he
      exact ⟨hfits.1, hfits.2.2⟩
    · intro h
      refine ⟨fun t ht => ?_, fun t ht => ?_⟩
      · obtain ⟨e, hfound, rfl⟩ := (answer_true_iff hsel hpkg hne).mp ht
        obtain ⟨front, back, hl, hfront, htrue⟩ := visitOnce_some.mp hfound
        have haccept := SelectedEbuild.changeTest_true_iff.mp htrue
        obtain ⟨hmatch, hslot⟩ := h front e back hl
          (fun x hx => SelectedEbuild.changeTest_false_iff.mp (hfront x hx)) haccept
        exact ⟨e, by simp [hl], rfl, hmatch, haccept.recorded, hslot⟩
      · obtain ⟨hfound, rfl⟩ := (answer_false_iff hsel hpkg hne).mp ht
        refine ⟨rfl, fun ebuild he hfits => ?_⟩
        have hrefuse := SelectedEbuild.changeTest_false_iff.mp (visitOnce_none.mp hfound ebuild he)
        exact hrefuse.not_matched hfits.1 hfits.2.1

/-- `app-misc/foo-2.0`, selected for `>=app-misc/foo-1.0`. -/
def selectedTwo : SelectedEbuild :=
  SelectedEbuild.init none (fooAtom .ge Package.foo10) (fooEbuild 2 Package.foo20)

def afterTwo : Emerge :=
  { Emerge.init { Portage.init with objects := [Package.fooTwo] } UseHeap.init
      (fun _ => { fields := .blank, ok := true }) [] with
    selected := [selectedTwo] }

/-- `<=app-misc/foo-2.0` matches the ebuild that is there. -/
theorem changeSound_afterTwo :
    afterTwo.ChangeSound 0 selectedTwo Package.fooTwo (fooAtom .le Package.foo20) := by
  apply (changeSound_iff rfl (by decide)).mpr
  intro front ebuild back hl hfront _
  cases front with
  | nil =>
    obtain ⟨rfl, rfl⟩ := List.cons.inj hl
    exact ⟨by decide, rfl⟩
  | cons x front =>
    obtain ⟨rfl, -⟩ := List.cons.inj hl
    have hrefuse := hfront (fooEbuild 2 Package.foo20) List.mem_cons_self
    exact absurd (by decide) (hrefuse.not_matched (by decide))

/-- `<app-misc/foo-2.0` after `>=app-misc/foo-1.0`: the answer is True, and `2.0` stays. -/
theorem olderAtom_not_sound : ¬ ∀ (emerge : Emerge) (sel : Nat) (selected : SelectedEbuild)
    (package : Package) (atom : Atom), emerge.selected[sel]? = some selected →
      emerge.package selected.ebuild = some package → emerge.ChangeSound sel selected package atom := by
  intro hall
  have hpkg : afterTwo.package selectedTwo.ebuild = some Package.fooTwo := by decide
  have hsound := hall afterTwo 0 selectedTwo Package.fooTwo (fooAtom .l Package.foo20) rfl hpkg
  have haccept : selectedTwo.Accepts (fooAtom .l Package.foo20) (fooEbuild 2 Package.foo20) :=
    ⟨by decide, by decide⟩
  have hfound : visitOnce (changeTest (fooAtom .l Package.foo20) selectedTwo) Package.fooTwo.ebuilds =
      .ok (some (fooEbuild 2 Package.foo20)) :=
    visitOnce_some.mpr ⟨[], _, rfl, by simp, SelectedEbuild.changeTest_true_iff.mpr haccept⟩
  have hcall : changeWithinSlotOver visitOnce 0 (fooAtom .l Package.foo20) afterTwo =
      .ok (true, afterTwo.changed 0 selectedTwo (fooEbuild 2 Package.foo20)) :=
    (answer_true_iff rfl hpkg (by decide)).mpr ⟨_, hfound, rfl⟩
  obtain ⟨ebuild, -, he, hfits⟩ := hsound.changed _ hcall
  obtain rfl := changed_inj rfl he
  exact absurd hfits.1 (by decide)

end Emerge

end AutoGentoo
