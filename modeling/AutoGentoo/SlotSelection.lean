import AutoGentoo.SlotTables

/-! The slot an atom names against the slot of the ebuild selected for it, over
runs of `select_atom`. -/

namespace AutoGentoo

open GuardedRun Emerge

namespace Atom

/-- They do not name two slots of one package. -/
def OneSlot (self other : Atom) : Prop :=
  self.key = other.key → ∀ slot slot', self.slot = some slot → other.slot = some slot' → slot = slot'

theorem oneSlot_refl (self : Atom) : self.OneSlot self :=
  fun _ _ _ h h' => Option.some.inj (h.symm.trans h')

theorem OneSlot.symm {self other : Atom} (h : self.OneSlot other) : other.OneSlot self :=
  fun hkey slot slot' hs hs' => (h hkey.symm slot' slot hs' hs).symm

end Atom

namespace Emerge

/-- Where the atom names a slot, that is the slot of the ebuild once its metadata is
loaded. -/
def OfSlot (self : Emerge) (atom : Atom) (ebuild : Ebuild) : Prop :=
  ∀ slot, atom.slot = some slot → (self.cache ebuild.addr).ok = true →
    (self.cache ebuild.addr).fields.slot = some slot

end Emerge

namespace SelectionRun

/-- The SelectedEbuild that was returned holds an ebuild of the slot of the atom. -/
def Held (emerge : Emerge) (atom : Atom) (answer : Answer) : Prop :=
  ∀ sel, answer = .selected sel →
    ∃ selected, emerge.selected[sel]? = some selected ∧ emerge.OfSlot atom selected.ebuild

/-- Every SelectedEbuild that was returned is of the slot asked for, and atoms that
name different slots of a package have different ones. -/
structure SlotsKept (s : SelectionRun) : Prop where
  held : ∀ p ∈ s.answers, Held s.emerge p.1 p.2
  apart : ∀ p ∈ s.answers, ∀ q ∈ s.answers, ∀ sel, p.2 = .selected sel → q.2 = .selected sel →
    p.1.OneSlot q.1

/-- What a call needs: the ebuild that the versions alone select is of the slot that is named.
Where an object is returned again, it was returned for this slot only, and where its ebuild
changes, the new one is of the slots it was returned for. -/
structure SlotFits (s : SelectionRun) (atom : Atom) : Prop where
  opens : ∀ ebuild, s.emerge.Opens atom ebuild → s.emerge.OfSlot atom ebuild
  reuses : ∀ sel, s.emerge.Reuses atom sel →
    (∀ selected, s.emerge.selected[sel]? = some selected → s.emerge.OfSlot atom selected.ebuild) ∧
      ∀ p ∈ s.answers, p.2 = .selected sel → p.1.OneSlot atom
  changes : ∀ sel candidate, s.emerge.Changes atom sel candidate → s.emerge.Switches atom sel candidate →
    s.emerge.OfSlot atom candidate ∧
      ∀ p ∈ s.answers, p.2 = .selected sel → s.emerge.OfSlot p.1 candidate ∧ p.1.OneSlot atom

def SlotOk (s : SelectionRun) : SelectionStep → Prop
  | .initializeMetadata _ => True
  | .selectAtom _ atom => s.SlotFits atom

/-- The condition, by the way of the call. -/
theorem slotFits_iff (s : SelectionRun) (atom : Atom) : s.SlotFits atom ↔
    match s.emerge.way atom with
    | .raises | .aborts | .unknownSlot => True
    | .creates _ _ ebuild => s.emerge.OfSlot atom ebuild
    | .reuses sel =>
      (∀ selected, s.emerge.selected[sel]? = some selected → s.emerge.OfSlot atom selected.ebuild) ∧
        ∀ p ∈ s.answers, p.2 = .selected sel → p.1.OneSlot atom
    | .changes sel candidate => s.emerge.Switches atom sel candidate →
      s.emerge.OfSlot atom candidate ∧
        ∀ p ∈ s.answers, p.2 = .selected sel → s.emerge.OfSlot p.1 candidate ∧ p.1.OneSlot atom := by
  constructor
  · rintro ⟨hopens, hreuses, hchanges⟩
    cases hway : s.emerge.way atom with
    | raises | aborts | unknownSlot => trivial
    | creates key pkg ebuild => exact hopens ebuild (opens_iff.mpr ⟨key, pkg, hway⟩)
    | reuses sel => exact hreuses sel (reuses_iff.mpr hway)
    | changes sel candidate => exact hchanges sel candidate (changes_iff.mpr hway)
  · intro h
    refine ⟨fun ebuild ho => ?_, fun sel hr => ?_, fun sel candidate hc => ?_⟩
    · obtain ⟨key, pkg, hway⟩ := way_of_opens ho
      rwa [hway] at h
    · rwa [way_of_reuses hr] at h
    · rwa [way_of_changes hc] at h

theorem held_of_not_selected {emerge : Emerge} {atom : Atom} {answer : Answer}
    (h : ∀ sel, answer ≠ .selected sel) : Held emerge atom answer :=
  fun sel hsel => absurd hsel (h sel)

theorem held_selected {emerge : Emerge} {atom : Atom} {sel : Nat} {selected : SelectedEbuild}
    (hs : emerge.selected[sel]? = some selected) :
    Held emerge atom (.selected sel) ↔ emerge.OfSlot atom selected.ebuild := by
  constructor
  · intro h
    obtain ⟨selected', hs', hslot⟩ := h sel rfl
    rwa [Option.some.inj (hs.symm.trans hs')]
  · intro h sel' hsel
    obtain rfl := Answer.selected.inj hsel
    exact ⟨selected, hs, h⟩

theorem held_congr {emerge emerge' : Emerge} {atom : Atom} {answer : Answer}
    (hcache : emerge'.cache = emerge.cache)
    (h : ∀ sel, answer = .selected sel → emerge'.selected[sel]? = emerge.selected[sel]?) :
    Held emerge' atom answer ↔ Held emerge atom answer := by
  apply forall_congr'
  intro sel
  apply forall_congr'
  intro hsel
  rw [h sel hsel]
  simp only [OfSlot, hcache]

theorem slotsKept_append {emerge : Emerge} {answers : List (Atom × Answer)} {atom : Atom}
    {answer : Answer} {s : SelectionRun} (hk : SlotsKept s) (hs : s.answers = answers) :
    SlotsKept { emerge := emerge, answers := answers ++ [(atom, answer)] } ↔
      (∀ p ∈ answers, Held emerge p.1 p.2) ∧ Held emerge atom answer ∧
        ∀ sel, answer = .selected sel → ∀ p ∈ answers, p.2 = .selected sel → p.1.OneSlot atom := by
  subst hs
  constructor
  · rintro ⟨hheld, hapart⟩
    have hnew : (atom, answer) ∈ s.answers ++ [(atom, answer)] :=
      List.mem_append_right _ (List.mem_singleton.mpr rfl)
    refine ⟨fun p hp => hheld p (List.mem_append_left _ hp), hheld _ hnew, ?_⟩
    intro sel hsel p hp hpsel
    exact hapart p (List.mem_append_left _ hp) _ hnew sel hpsel hsel
  · rintro ⟨hold, hnew, hone⟩
    constructor
    · intro p hp
      rcases List.mem_append.mp hp with hp | hp
      · exact hold p hp
      · rw [List.mem_singleton.mp hp]
        exact hnew
    · intro p hp q hq sel hpsel hqsel
      rcases List.mem_append.mp hp with hp | hp
      · rcases List.mem_append.mp hq with hq | hq
        · exact hk.apart p hp q hq sel hpsel hqsel
        · rw [List.mem_singleton.mp hq] at hqsel ⊢
          exact hone sel hqsel p hp hpsel
      · rw [List.mem_singleton.mp hp] at hpsel ⊢
        rcases List.mem_append.mp hq with hq | hq
        · exact (hone sel hpsel q hq hqsel).symm
        · rw [List.mem_singleton.mp hq]
          exact atom.oneSlot_refl

theorem slotsKept_nothing {s : SelectionRun} (hk : SlotsKept s) {atom : Atom} {answer : Answer}
    (h : ∀ sel, answer ≠ .selected sel) :
    SlotsKept { s with answers := s.answers ++ [(atom, answer)] } :=
  (slotsKept_append hk rfl).mpr
    ⟨hk.held, held_of_not_selected h, fun sel hsel => absurd hsel (h sel)⟩

theorem SlotsKept.lt {s : SelectionRun} (hk : SlotsKept s) {p : Atom × Answer} (hp : p ∈ s.answers)
    {sel : Nat} (h : p.2 = .selected sel) : sel < s.emerge.selected.length := by
  obtain ⟨selected, hs, -⟩ := hk.held p hp sel h
  exact (List.getElem?_eq_some_iff.mp hs).1

theorem slotsKept_creates {s : SelectionRun} (hk : SlotsKept s) (key : List Char)
    (pkg : InstallPackage) (parent : Option Nat) (atom : Atom) (ebuild : Ebuild) :
    SlotsKept {
      emerge := s.emerge.created key pkg parent atom ebuild
      answers := s.answers ++ [(atom, .selected s.emerge.selected.length)] } ↔
      s.emerge.OfSlot atom ebuild := by
  have hnew : (s.emerge.created key pkg parent atom ebuild).selected[s.emerge.selected.length]? =
      some (SelectedEbuild.init parent atom ebuild) := List.getElem?_concat_length
  have hold : ∀ p ∈ s.answers, Held (s.emerge.created key pkg parent atom ebuild) p.1 p.2 := by
    intro p hp
    have hsame : Held (s.emerge.created key pkg parent atom ebuild) p.1 p.2 ↔ Held s.emerge p.1 p.2 :=
      held_congr rfl fun sel hsel => List.getElem?_append_left (hk.lt hp hsel)
    exact hsame.mpr (hk.held p hp)
  rw [slotsKept_append hk rfl, held_selected hnew]
  constructor
  · exact fun h => h.2.1
  · intro h
    refine ⟨hold, h, fun sel hsel p hp hpsel => ?_⟩
    obtain rfl := Answer.selected.inj hsel
    exact absurd (hk.lt hp hpsel) (Nat.lt_irrefl _)

theorem slotsKept_reuses {s : SelectionRun} (hk : SlotsKept s) {sel : Nat} {selected : SelectedEbuild}
    (hs : s.emerge.selected[sel]? = some selected) (atom : Atom) :
    SlotsKept { s with answers := s.answers ++ [(atom, .selected sel)] } ↔
      (∀ selected, s.emerge.selected[sel]? = some selected → s.emerge.OfSlot atom selected.ebuild) ∧
        ∀ p ∈ s.answers, p.2 = .selected sel → p.1.OneSlot atom := by
  rw [slotsKept_append hk rfl, held_selected hs]
  constructor
  · rintro ⟨-, hslot, hone⟩
    refine ⟨fun selected' hs' => ?_, hone sel rfl⟩
    rwa [← Option.some.inj (hs.symm.trans hs')]
  · rintro ⟨hslot, hone⟩
    refine ⟨hk.held, hslot selected hs, fun sel' hsel => ?_⟩
    obtain rfl := Answer.selected.inj hsel
    exact hone

theorem slotsKept_changed {s : SelectionRun} (hk : SlotsKept s) {sel : Nat} {selected : SelectedEbuild}
    (hs : s.emerge.selected[sel]? = some selected) (atom : Atom) (candidate : Ebuild) :
    SlotsKept {
      emerge := s.emerge.changed sel selected candidate
      answers := s.answers ++ [(atom, .selected sel)] } ↔
      s.emerge.OfSlot atom candidate ∧
        ∀ p ∈ s.answers, p.2 = .selected sel → s.emerge.OfSlot p.1 candidate ∧ p.1.OneSlot atom := by
  have hnew := changed_self hs candidate
  rw [slotsKept_append hk rfl, held_selected hnew]
  constructor
  · rintro ⟨hold, hslot, hone⟩
    refine ⟨hslot, fun p hp hpsel => ⟨?_, hone sel rfl p hp hpsel⟩⟩
    have hheld := hold p hp
    rwa [hpsel, held_selected hnew] at hheld
  · rintro ⟨hslot, hall⟩
    refine ⟨fun p hp => ?_, hslot, fun sel' hsel p hp hpsel => ?_⟩
    · by_cases h : p.2 = .selected sel
      · rw [h, held_selected hnew]
        exact (hall p hp h).1
      · have hsame : Held (s.emerge.changed sel selected candidate) p.1 p.2 ↔ Held s.emerge p.1 p.2 :=
          held_congr rfl fun sel' hsel =>
            changed_ne (fun he : sel = sel' => h (he ▸ hsel)) selected candidate
        exact hsame.mpr (hk.held p hp)
    · obtain rfl := Answer.selected.inj hsel
      exact (hall p hp hpsel).2

theorem step_slotsKept {s : SelectionRun} (hk : SlotsKept s) (i : SelectionStep) :
    SlotsKept (step s i) ↔ SlotOk s i := by
  cases i with
  | initializeMetadata ebuild => exact ⟨fun _ => trivial, fun _ => ⟨hk.held, hk.apart⟩⟩
  | selectAtom parent atom =>
    have hw := selectAtom_went s.emerge parent atom
    rw [step, SlotOk, slotFits_iff]
    cases hway : s.emerge.way atom with
    | raises =>
      rw [hway] at hw
      obtain ⟨e, he⟩ := hw
      rw [he]
      exact ⟨fun _ => trivial, fun _ => hk⟩
    | aborts =>
      rw [hway] at hw
      obtain ⟨e, he, hne⟩ := hw
      rw [he]
      cases e with
      | raised e' => exact absurd rfl (hne e')
      | diverged | aborted => exact ⟨fun _ => trivial, fun _ => slotsKept_nothing hk (by simp)⟩
    | reuses sel =>
      rw [hway] at hw
      obtain ⟨he, selected, hs, -⟩ := hw
      rw [he]
      exact slotsKept_reuses hk hs atom
    | unknownSlot =>
      rw [hway] at hw
      rw [show _ = _ from hw]
      exact ⟨fun _ => trivial, fun _ => slotsKept_nothing hk (by simp)⟩
    | creates key pkg ebuild =>
      rw [hway] at hw
      rw [show _ = _ from hw]
      exact slotsKept_creates hk key pkg parent atom ebuild
    | changes sel candidate =>
      rw [hway] at hw
      obtain ⟨selected, hs, he⟩ := hw
      have hnot : changeTest atom selected candidate ≠ .ok true → ¬ s.emerge.Switches atom sel candidate := by
        rintro hne ⟨selected', hs', ht⟩
        rw [Option.some.inj (hs.symm.trans hs')] at hne
        exact hne (SelectedEbuild.changeTest_true_iff.mpr ht)
      rw [he]
      cases htest : changeTest atom selected candidate with
      | error e =>
        have hsw := hnot (by simp [htest])
        cases e with
        | raised e' => exact absurd (changeTest_error htest) (by simp)
        | diverged | aborted =>
          exact ⟨fun _ h => absurd h hsw, fun _ => slotsKept_nothing hk (by simp)⟩
      | ok m =>
        cases m with
        | false =>
          have hsw := hnot (by simp [htest])
          exact ⟨fun _ h => absurd h hsw, fun _ => slotsKept_nothing hk (by simp)⟩
        | true =>
          have hsw : s.emerge.Switches atom sel candidate := ⟨selected, hs, SelectedEbuild.changeTest_true_iff.mp htest⟩
          exact (slotsKept_changed hk hs atom candidate).trans (imp_iff_right hsw).symm

/-- Along a run every SelectedEbuild is of the slots it was returned for exactly when
every call meets its condition. -/
theorem slots_selected_iff (portage : Portage) (globals : UseHeap) (cache : Nat → CacheFile)
    (read : List Nat) (steps : List SelectionStep) :
    Always (fun s i => some (step s i)) SlotsKept (start portage globals cache read) steps ↔
      AllOk (fun s i => some (step s i)) SlotOk (start portage globals cache read) steps := by
  have hstep : ∀ s i, True → SlotsKept s →
      ∃ t, some (step s i) = some t ∧ True ∧ (SlotsKept t ↔ SlotOk s i) :=
    fun s i _ hk => ⟨step s i, rfl, trivial, step_slotsKept hk i⟩
  refine always_iff_allOk hstep trivial ⟨?_, ?_⟩ steps
  · intro p hp
    exact absurd hp (by simp [start])
  · intro p hp
    exact absurd hp (by simp [start])

/-- `app-misc/foo` in a slot. -/
def slotRequest (slot : Char) : Atom :=
  { fooRequest .all Package.foo10 with slot := some [slot] }

/-- `app-misc/foo:0`, then `app-misc/foo:1`. -/
def slotRequests : List SelectionStep :=
  [.selectAtom none (slotRequest '0'), .selectAtom none (slotRequest '1')]

/-- All versions are of slot 0, and one object is returned for both atoms. -/
theorem other_slot_selected : ¬ ∀ portage globals cache read steps,
    Always (fun s i => some (step s i)) SlotsKept (start portage globals cache read) steps := by
  intro hall
  let zero : Metadata := { Metadata.blank with slot := some ['0'] }
  let s : SelectionRun := slotRequests.foldl step
    (start fooRepository UseHeap.init (fun _ => { fields := zero, ok := true }) [])
  have hrun : s.answers = [(slotRequest '0', .selected 0), (slotRequest '1', .selected 0)] := by
    decide +kernel
  have hapart := ((hall _ _ _ _ slotRequests).last : SlotsKept s).apart
  rw [hrun] at hapart
  have hone := hapart _ List.mem_cons_self _ (List.mem_cons_of_mem _ List.mem_cons_self) 0 rfl rfl
  have hkey : (slotRequest '0').key = (slotRequest '1').key := rfl
  exact absurd (hone hkey ['0'] ['1'] rfl rfl) (by simp)

end SelectionRun

end AutoGentoo
