import AutoGentoo.EmergeBlocks
import AutoGentoo.RegenerateFrame

/-! Runs of selecting, changing and loading: the slot an ebuild is filed under
against the slot its metadata gives. -/

namespace AutoGentoo

open GuardedRun StateExcept

inductive SlotStep
  | selectAtom (parent : Option Nat) (atom : Atom)
  | changeWithinSlot (sel : Nat) (atom : Atom)
  | initializeMetadata (ebuild : Ebuild)
  deriving DecidableEq, Repr

namespace Emerge

/-- Every entry holds an ebuild of its slot, and no two entries of a package hold
ebuilds of one slot. -/
def Slotted (self : Emerge) : Prop :=
  (∀ key slot ebuild, self.held key slot = some ebuild → self.slot ebuild = slot) ∧
    ∀ key slot slot' ebuild ebuild', self.held key slot = some ebuild →
      self.held key slot' = some ebuild' → slot ≠ slot' → self.slot ebuild ≠ self.slot ebuild'

/-- The object is filed under the slot of this ebuild only. -/
def Fits (self : Emerge) (sel : Nat) (candidate : Ebuild) : Prop :=
  ∀ key slot, self.entry key slot = some sel → self.slot candidate = slot

end Emerge

namespace SlotStep

/-- The state after a call, also one that raises. -/
def step (s : Emerge) : SlotStep → Emerge
  | .selectAtom parent atom => (ofCall (AutoGentoo.selectAtom parent atom) s).2
  | .changeWithinSlot sel atom => (ofCall (AutoGentoo.changeWithinSlot sel atom) s).2
  | .initializeMetadata ebuild => (AutoGentoo.initializeMetadata ebuild s).2

/-- An object changes only to an ebuild of the slot it is filed under, and the
metadata of an ebuild in a table gives the slot it is filed under. -/
def StepOk (s : Emerge) : SlotStep → Prop
  | .selectAtom _ atom => ∀ sel candidate, s.Changes atom sel candidate →
      s.Switches atom sel candidate → s.Fits sel candidate
  | .changeWithinSlot sel atom => ∀ candidate, s.Second sel candidate →
      s.Switches atom sel candidate → s.Fits sel candidate
  | .initializeMetadata ebuild => ∀ key slot held, s.held key slot = some held →
      held.addr = ebuild.addr → (s.cache ebuild.addr).fields.slot = slot

end SlotStep

namespace Emerge

theorem slotted_iff {self : Emerge} : self.Slotted ↔
    ∀ key slot ebuild, self.held key slot = some ebuild → self.slot ebuild = slot := by
  refine ⟨And.left, fun h => ⟨h, ?_⟩⟩
  intro key slot slot' ebuild ebuild' he he' hne hslot
  rw [h key slot ebuild he, h key slot' ebuild' he'] at hslot
  exact hne hslot

theorem slotted_created {self : Emerge} (hf : self.Filed) (h : self.Slotted) {key : List Char}
    {pkg : InstallPackage} {ebuild : Ebuild}
    (hpkg : pkg.selectedEbuildSlots = [] ∨ (Dict.get self.selectedPackages key = some pkg ∧
      Dict.get pkg.selectedEbuildSlots (self.slot ebuild) = none))
    (parent : Option Nat) (atom : Atom) : (self.created key pkg parent atom ebuild).Slotted := by
  refine slotted_iff.mpr fun key' slot e he => ?_
  rcases held_created hf hpkg he with ⟨-, hslot, rfl⟩ | hold
  · exact hslot
  · exact h.1 key' slot e hold

theorem slotted_changed {self : Emerge} (h : self.Slotted) {sel : Nat} {selected : SelectedEbuild}
    (hs : self.selected[sel]? = some selected) (candidate : Ebuild) :
    (self.changed sel selected candidate).Slotted ↔ self.Fits sel candidate := by
  constructor
  · intro h' key slot hentry
    exact h'.1 key slot candidate (by rw [held_changed hs, if_pos hentry])
  · intro hfits
    refine slotted_iff.mpr fun key slot e he => ?_
    rw [held_changed hs] at he
    split_ifs at he with hentry
    · exact Option.some.inj he ▸ hfits key slot hentry
    · exact h.1 key slot e he

theorem slotted_switched {self : Emerge} (h : self.Slotted) (atom : Atom) (sel : Nat)
    (candidate : Ebuild) : (self.switched atom sel candidate).Slotted ↔
      (self.Switches atom sel candidate → self.Fits sel candidate) := by
  rcases switched_cases self atom sel candidate with ⟨selected, hs, hsw, he⟩ | ⟨hsw, he⟩
  · rw [he, slotted_changed h hs]
    exact ⟨fun hfits _ => hfits, fun hfits => hfits hsw⟩
  · rw [he]
    exact ⟨fun _ hsw' => absurd hsw' hsw, fun _ => h⟩

theorem slot_readMetadata (self : Emerge) (ebuild e : Ebuild) :
    (self.readMetadata ebuild).slot e =
      if e.addr = ebuild.addr then (self.cache e.addr).fields.slot else self.slot e := by
  by_cases h : e.addr = ebuild.addr
  · simp [slot, metadata, readMetadata, h]
  · simp [slot, metadata, readMetadata, h]

theorem slotted_readMetadata {self : Emerge} (h : self.Slotted) (ebuild : Ebuild) :
    (self.readMetadata ebuild).Slotted ↔ ∀ key slot held, self.held key slot = some held →
      held.addr = ebuild.addr → (self.cache ebuild.addr).fields.slot = slot := by
  rw [slotted_iff]
  constructor
  · intro h' key slot e he haddr
    have hslot := h' key slot e he
    rwa [slot_readMetadata, if_pos haddr, haddr] at hslot
  · intro hok key slot e he
    rw [slot_readMetadata]
    split_ifs with haddr
    · rw [haddr]
      exact hok key slot e he haddr
    · exact h.1 key slot e he

theorem ofCall_changeWithinSlot_none {self : Emerge} {sel : Nat} (atom : Atom)
    (h : self.candidate sel = none) : (ofCall (changeWithinSlot sel atom) self).2 = self := by
  rw [ofCall]
  rcases changeWithinSlot_none atom h with ⟨e, he⟩ | he
  · rw [he]
  · rw [he]

theorem ofCall_changeWithinSlot_some {self : Emerge} {sel : Nat} (atom : Atom) {candidate : Ebuild}
    (h : self.candidate sel = some candidate) :
    (ofCall (changeWithinSlot sel atom) self).2 = self.switched atom sel candidate := by
  obtain ⟨selected, hs, he⟩ := changeWithinSlot_some atom h
  rw [ofCall, he, switched]
  simp only [hs]
  cases changeTest atom selected candidate with
  | error e => rfl
  | ok m => cases m <;> rfl

theorem Filed.switched {self : Emerge} (hf : self.Filed) (atom : Atom) (sel : Nat)
    (candidate : Ebuild) : (self.switched atom sel candidate).Filed := by
  rcases switched_cases self atom sel candidate with ⟨selected, -, -, he⟩ | ⟨-, he⟩
  · rw [he]
    exact hf.changed _ _ _
  · rw [he]
    exact hf

end Emerge

namespace SlotStep

open Emerge

theorem filed_step {s : Emerge} (hf : s.Filed) (i : SlotStep) : (step s i).Filed := by
  cases i with
  | selectAtom parent atom =>
    rw [step, ofCall_selectAtom]
    exact hf.selects parent atom
  | changeWithinSlot sel atom =>
    cases hc : s.candidate sel with
    | none => rwa [step, ofCall_changeWithinSlot_none atom hc]
    | some candidate =>
      rw [step, ofCall_changeWithinSlot_some atom hc]
      exact hf.switched atom sel candidate
  | initializeMetadata ebuild => exact hf

theorem step_slotted {s : Emerge} (hf : s.Filed) (h : s.Slotted) (i : SlotStep) :
    (step s i).Slotted ↔ StepOk s i := by
  cases i with
  | selectAtom parent atom =>
    rw [step, ofCall_selectAtom, StepOk, Emerge.selects]
    cases hway : s.way atom with
    | raises | aborts | reuses | unknownSlot =>
      exact iff_of_true h fun sel candidate hc => absurd (hway.symm.trans (way_of_changes hc)) (by simp)
    | creates key pkg ebuild =>
      refine iff_of_true (slotted_created hf h (way_creates hway) parent atom) fun sel candidate hc => ?_
      exact absurd (hway.symm.trans (way_of_changes hc)) (by simp)
    | changes sel candidate =>
      rw [slotted_switched h atom sel candidate]
      constructor
      · intro hok sel' candidate' hc
        obtain ⟨rfl, rfl⟩ := Way.changes.inj (hway.symm.trans (way_of_changes hc))
        exact hok
      · exact fun hok => hok sel candidate (changes_iff.mpr hway)
  | changeWithinSlot sel atom =>
    simp only [StepOk, ← candidate_iff]
    cases hc : s.candidate sel with
    | none =>
      rw [step, ofCall_changeWithinSlot_none atom hc]
      exact iff_of_true h fun candidate hs => absurd hs (by simp)
    | some candidate =>
      rw [step, ofCall_changeWithinSlot_some atom hc, slotted_switched h atom sel candidate]
      simp only [Option.some.injEq, forall_eq']
  | initializeMetadata ebuild => exact slotted_readMetadata h ebuild

/-! `regenerate` as a run of such steps. -/

theorem ofCall_selection {loop : ForLoop} (parent : Option Nat) (atom : Atom) (s : Emerge) :
    (ofCall (selectAtomOver loop parent atom) s.selection).2 =
      (ofCall (selectAtomOver loop parent atom) s).2.selection := by
  rw [ofCall, ofCall, selectAtom_selection]
  cases selectAtomOver loop parent atom s <;> rfl

theorem ofCall_change_selection {loop : ForLoop} (sel : Nat) (atom : Atom) (s : Emerge) :
    (ofCall (changeWithinSlotOver loop sel atom) s.selection).2 =
      (ofCall (changeWithinSlotOver loop sel atom) s).2.selection := by
  rw [ofCall, ofCall, changeWithinSlot_selection]
  cases changeWithinSlotOver loop sel atom s <;> rfl

theorem step_selection (s : Emerge) (i : SlotStep) : step s.selection i = (step s i).selection := by
  cases i with
  | selectAtom parent atom => exact ofCall_selection parent atom s
  | changeWithinSlot sel atom => exact ofCall_change_selection sel atom s
  | initializeMetadata ebuild => rfl

theorem foldl_selection (s : Emerge) (steps : List SlotStep) :
    steps.foldl step s.selection = (steps.foldl step s).selection := by
  induction steps generalizing s with
  | nil => rfl
  | cons i steps ih => rw [List.foldl_cons, List.foldl_cons, step_selection, ih]

/-- One state comes from another by steps, as far as selecting is concerned. -/
def Leads (s t : Emerge) : Prop := ∃ steps : List SlotStep, t.selection = steps.foldl step s.selection

theorem leads_refl {s t : Emerge} (h : s.selection = t.selection) : Leads s t := ⟨[], h.symm⟩

theorem leads_step (s : Emerge) (i : SlotStep) : Leads s (step s i) :=
  ⟨[i], (step_selection s i).symm⟩

theorem leads_trans (s t r : Emerge) (h : Leads s t) (h' : Leads t r) : Leads s r := by
  obtain ⟨steps, hs⟩ := h
  obtain ⟨steps', hs'⟩ := h'
  exact ⟨steps ++ steps', by rw [List.foldl_append, ← hs, hs']⟩

theorem leads_frame : Frame AutoGentoo.selectAtom (fun _ => True) (fun _ => True) Leads where
  trans := leads_trans
  use _ _ h := leads_refl h.selection
  deps sel _ _ hf s := leads_refl (modifySel_selection sel hf s).symm
  session _ _ _ _ := leads_refl rfl
  skip _ _ _ h := absurd trivial h
  select parent atom _ s := leads_step s (.selectAtom parent atom)
  files _ _ := .inl fun _ _ _ => trivial
  load ebuild s := leads_step s (.initializeMetadata ebuild)

theorem slotted_selection (s : Emerge) : s.selection.Slotted ↔ s.Slotted := by
  have hheld : ∀ key slot, s.selection.held key slot = s.held key slot := by
    intro key slot
    have hentry : s.selection.entry key slot = s.entry key slot := rfl
    rw [held, held, hentry]
    cases s.entry key slot with
    | none => rfl
    | some sel => simp [selection_selected, Function.comp_def]
  simp only [slotted_iff, hheld, selection_slot]

/-- The entries keep their slots all along a run exactly when each call meets its
condition, and a call of `regenerate` comes to such a run. -/
theorem slots_kept_iff (portage : Portage) (globals : UseHeap) (cache : Nat → CacheFile)
    (read : List Nat) :
    (∀ steps, Always (fun s i => some (step s i)) Slotted (Emerge.init portage globals cache read) steps ↔
      AllOk (fun s i => some (step s i)) StepOk (Emerge.init portage globals cache read) steps) ∧
    ∀ fuel sel s, ∃ steps : List SlotStep,
      (regenerate AutoGentoo.selectAtom fuel sel s).2.selection = (steps.foldl step s).selection ∧
        ((regenerate AutoGentoo.selectAtom fuel sel s).2.Slotted ↔ (steps.foldl step s).Slotted) := by
  constructor
  · intro steps
    have hstep : ∀ s i, s.Filed → s.Slotted →
        ∃ t, some (step s i) = some t ∧ t.Filed ∧ (t.Slotted ↔ StepOk s i) :=
      fun s i hf h => ⟨step s i, rfl, filed_step hf i, step_slotted hf h i⟩
    refine always_iff_allOk hstep ?_ ?_ steps
    · intro key slot sel h
      exact absurd h (by simp [entry, Emerge.init])
    · refine slotted_iff.mpr fun key slot ebuild h => ?_
      exact absurd h (by simp [held, entry, Emerge.init])
  · intro fuel sel s
    have hleads : Respects Leads (AutoGentoo.regenerate AutoGentoo.selectAtom fuel sel) :=
      leads_frame.regenerate fuel trivial
    obtain ⟨steps, hsteps⟩ := hleads s
    rw [foldl_selection] at hsteps
    exact ⟨steps, hsteps, by rw [← slotted_selection, hsteps, slotted_selection]⟩

/-- `=app-misc/foo-2.0`, then the metadata of what was selected, of slot 0. -/
def selectThenLoad : List SlotStep :=
  [.selectAtom none (SelectionRun.fooRequest .e Package.foo20),
    .initializeMetadata (fooEbuild 2 Package.foo20)]

theorem loaded_slot_differs :
    ¬ ∀ portage globals cache read steps, Always (fun s i => some (step s i)) Slotted
      (Emerge.init portage globals cache read) steps := by
  intro hall
  let s : Emerge := selectThenLoad.foldl step (Emerge.init SelectionRun.fooRepository UseHeap.init
    (fun _ => { fields := { Metadata.blank with slot := some ['0'] }, ok := true }) [])
  have hlast : s.Slotted := (hall _ _ _ _ selectThenLoad).last
  have hheld : (s.held "app-misc/foo".toList none).map s.slot = some (some ['0']) := by
    decide +kernel
  obtain ⟨ebuild, he, hslot⟩ := Option.map_eq_some_iff.mp hheld
  exact absurd (hslot.symm.trans (hlast.1 _ _ ebuild he)) (by simp)

end SlotStep

end AutoGentoo
