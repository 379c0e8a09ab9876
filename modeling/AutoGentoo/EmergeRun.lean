import AutoGentoo.GuardedRun
import AutoGentoo.SelectionWays

/-! Runs of `select_atom`: what a call answers and what later calls make of it. -/

namespace AutoGentoo

open GuardedRun

/-- How a call ended that did not raise; `never` stands for a call that does not
come back. -/
inductive Answer
  | selected (sel : Nat)
  | nothing
  | never
  deriving DecidableEq, Repr

structure SelectionRun where
  emerge : Emerge
  answers : List (Atom × Answer)

inductive SelectionStep
  | selectAtom (parent : Option Nat) (atom : Atom)
  | initializeMetadata (ebuild : Ebuild)
  deriving DecidableEq, Repr

namespace SelectionRun

def start (portage : Portage) (globals : UseHeap) (cache : Nat → CacheFile) (read : List Nat) :
    SelectionRun :=
  { emerge := Emerge.init portage globals cache read, answers := [] }

def step (s : SelectionRun) : SelectionStep → SelectionRun
  | .selectAtom parent atom =>
    match selectAtom parent atom s.emerge with
    | .ok (some sel, emerge) =>
      { emerge := emerge, answers := s.answers ++ [(atom, .selected sel)] }
    | .ok (none, emerge) => { emerge := emerge, answers := s.answers ++ [(atom, .nothing)] }
    | .error (.raised _) => s
    | .error _ => { s with answers := s.answers ++ [(atom, .never)] }
  | .initializeMetadata ebuild => { s with emerge := s.emerge.readMetadata ebuild }

/-- The call returned a SelectedEbuild, of which the ebuild matches the atom. -/
def Satisfied (emerge : Emerge) (atom : Atom) (answer : Answer) : Prop :=
  ∃ sel selected, answer = .selected sel ∧ emerge.selected[sel]? = some selected ∧
    atomMatches atom selected.ebuild = some true

def Kept (s : SelectionRun) : Prop := ∀ p ∈ s.answers, Satisfied s.emerge p.1 p.2

/-- What a call needs: its comparisons are defined, and the slot is known where no selected
version of the package matches. For an ebuild newly selected the operator reads both
comparisons of the versions alike, and a slot changes only to a version that matches this atom
and all that were answered with the slot. -/
structure SelectOk (s : SelectionRun) (atom : Atom) : Prop where
  defined : ¬ s.emerge.Undefined atom
  slot : ¬ s.emerge.LacksSlot atom
  opens : ∀ ebuild, s.emerge.Opens atom ebuild → Package.TellsAlike atom ebuild
  changes : ∀ sel candidate, s.emerge.Changes atom sel candidate →
    atomMatches atom candidate = some true ∧
      ∀ p ∈ s.answers, p.2 = .selected sel → atomMatches p.1 candidate = some true

def StepOk (s : SelectionRun) : SelectionStep → Prop
  | .selectAtom _ atom => s.SelectOk atom
  | .initializeMetadata _ => True

/-- The atoms an ebuild was selected by have been answered with it. -/
def Recorded (s : SelectionRun) : Prop :=
  ∀ sel selected, s.emerge.selected[sel]? = some selected →
    ∀ a ∈ selected.selectedBy.map Prod.fst, (a, Answer.selected sel) ∈ s.answers

end SelectionRun

namespace SelectionRun

theorem not_satisfied_nothing {emerge : Emerge} {atom : Atom} :
    ¬ Satisfied emerge atom .nothing := by
  rintro ⟨_, _, h, -⟩
  exact absurd h (by simp)

theorem not_satisfied_never {emerge : Emerge} {atom : Atom} : ¬ Satisfied emerge atom .never := by
  rintro ⟨_, _, h, -⟩
  exact absurd h (by simp)

theorem satisfied_selected {emerge : Emerge} {atom : Atom} {sel : Nat} {selected : SelectedEbuild}
    (h : emerge.selected[sel]? = some selected) :
    Satisfied emerge atom (.selected sel) ↔ atomMatches atom selected.ebuild = some true := by
  constructor
  · rintro ⟨sel', selected', hsel, hs, hm⟩
    cases hsel
    rw [h, Option.some.injEq] at hs
    rw [hs]
    exact hm
  · exact fun hm => ⟨sel, selected, rfl, h, hm⟩

/-- An answer stays as good as it was where its selected ebuild is left alone. -/
theorem satisfied_congr {emerge emerge' : Emerge} {atom : Atom} {answer : Answer}
    (h : ∀ sel, answer = .selected sel → emerge'.selected[sel]? = emerge.selected[sel]?) :
    Satisfied emerge' atom answer ↔ Satisfied emerge atom answer := by
  constructor
  · rintro ⟨sel, selected, rfl, hs, hm⟩
    exact ⟨sel, selected, rfl, h sel rfl ▸ hs, hm⟩
  · rintro ⟨sel, selected, rfl, hs, hm⟩
    exact ⟨sel, selected, rfl, (h sel rfl).trans hs, hm⟩

theorem kept_append {emerge : Emerge} {answers : List (Atom × Answer)} {atom : Atom}
    {answer : Answer} :
    Kept { emerge := emerge, answers := answers ++ [(atom, answer)] } ↔
      (∀ p ∈ answers, Satisfied emerge p.1 p.2) ∧ Satisfied emerge atom answer := by
  simp [Kept, or_imp, forall_and]

theorem addAtom_selected (emerge : Emerge) (key : List Char) (pkg : InstallPackage)
    (parent : Option Nat) (atom : Atom) (ebuild : Ebuild) :
    ∃ emerge', pkg.addAtom key parent atom ebuild emerge = .ok (emerge.selected.length, emerge') ∧
      emerge'.selected = emerge.selected ++ [SelectedEbuild.init parent atom ebuild] :=
  ⟨_, rfl, rfl⟩

theorem Kept.lt {s : SelectionRun} (hk : Kept s) {p : Atom × Answer} (hp : p ∈ s.answers)
    {sel : Nat} (h : p.2 = .selected sel) : sel < s.emerge.selected.length := by
  obtain ⟨sel', selected, hsel, hs, -⟩ := hk p hp
  rw [h] at hsel
  cases hsel
  exact (List.getElem?_eq_some_iff.mp hs).1

theorem recorded_append {s : SelectionRun} (hr : Recorded s) {emerge : Emerge}
    {parent : Option Nat} {atom : Atom} {ebuild : Ebuild}
    (hsel : emerge.selected = s.emerge.selected ++ [SelectedEbuild.init parent atom ebuild]) :
    Recorded {
      emerge := emerge
      answers := s.answers ++ [(atom, .selected s.emerge.selected.length)] } := by
  intro sel selected hs a ha
  simp only [hsel] at hs
  rcases Nat.lt_or_ge sel s.emerge.selected.length with hlt | hge
  · rw [List.getElem?_append_left hlt] at hs
    exact List.mem_append_left _ (hr sel selected hs a ha)
  · rw [List.getElem?_append_right hge] at hs
    obtain ⟨hlt, rfl⟩ := List.getElem?_eq_some_iff.mp hs
    obtain rfl : sel = s.emerge.selected.length := by
      simp only [List.length_singleton] at hlt
      omega
    simp only [Nat.sub_self, List.getElem_cons_zero] at ha
    obtain rfl : a = atom := List.mem_singleton.mp ha
    exact List.mem_append_right _ (List.mem_singleton.mpr rfl)

theorem kept_creates {s : SelectionRun} (hk : Kept s) {emerge : Emerge} {parent : Option Nat}
    {atom : Atom} {ebuild : Ebuild}
    (hsel : emerge.selected = s.emerge.selected ++ [SelectedEbuild.init parent atom ebuild]) :
    Kept { emerge := emerge, answers := s.answers ++ [(atom, .selected s.emerge.selected.length)] } ↔
      atomMatches atom ebuild = some true := by
  have hnew : emerge.selected[s.emerge.selected.length]? =
      some (SelectedEbuild.init parent atom ebuild) := by
    rw [hsel, List.getElem?_concat_length]
  have hold : ∀ p ∈ s.answers, Satisfied emerge p.1 p.2 := by
    intro p hp
    refine (satisfied_congr fun sel h => ?_).mpr (hk p hp)
    rw [hsel, List.getElem?_append_left (hk.lt hp h)]
  rw [kept_append, satisfied_selected hnew]
  exact ⟨And.right, fun h => ⟨hold, h⟩⟩

theorem changed_self {emerge : Emerge} {sel : Nat} {selected : SelectedEbuild}
    (hs : emerge.selected[sel]? = some selected) (candidate : Ebuild) :
    (emerge.changed sel selected candidate).selected[sel]? =
      some { selected with ebuild := candidate, isDirty := true } :=
  List.getElem?_set_self (List.getElem?_eq_some_iff.mp hs).1

theorem changed_ne {emerge : Emerge} {sel sel' : Nat} (h : sel ≠ sel') (selected : SelectedEbuild)
    (candidate : Ebuild) :
    (emerge.changed sel selected candidate).selected[sel']? = emerge.selected[sel']? :=
  List.getElem?_set_ne h

theorem recorded_changed {s : SelectionRun} (hr : Recorded s) {atom : Atom} {sel : Nat}
    {selected : SelectedEbuild} (hs : s.emerge.selected[sel]? = some selected)
    (candidate : Ebuild) (answer : Answer) :
    Recorded {
      emerge := s.emerge.changed sel selected candidate
      answers := s.answers ++ [(atom, answer)] } := by
  intro sel' selected' hs' a ha
  refine List.mem_append_left _ ?_
  by_cases h : sel = sel'
  · subst h
    obtain rfl := Option.some.inj ((changed_self hs candidate).symm.trans hs')
    exact hr sel selected hs a ha
  · rw [changed_ne h] at hs'
    exact hr sel' selected' hs' a ha

theorem kept_changed {s : SelectionRun} (hk : Kept s) {atom : Atom} {sel : Nat}
    {selected : SelectedEbuild} (hs : s.emerge.selected[sel]? = some selected)
    (candidate : Ebuild) :
    Kept {
      emerge := s.emerge.changed sel selected candidate
      answers := s.answers ++ [(atom, .selected sel)] } ↔
      atomMatches atom candidate = some true ∧
        ∀ p ∈ s.answers, p.2 = .selected sel → atomMatches p.1 candidate = some true := by
  have hnew := changed_self hs candidate
  rw [kept_append, satisfied_selected hnew, and_comm]
  refine and_congr_right fun _ => forall_congr' fun p => forall_congr' fun hp => ?_
  by_cases h : p.2 = .selected sel
  · rw [h, satisfied_selected hnew]
    simp
  · have hsame : Satisfied (s.emerge.changed sel selected candidate) p.1 p.2 ↔
        Satisfied s.emerge p.1 p.2 := by
      refine satisfied_congr fun sel' h' => changed_ne ?_ selected candidate
      rintro rfl
      exact h h'
    exact ⟨fun _ h' => absurd h' h, fun _ => hsame.mpr (hk p hp)⟩

/-- Where everything answered and the new atom match the candidate, its test
passes. -/
theorem changeTest_true {s : SelectionRun} (hr : Recorded s) {atom : Atom} {sel : Nat}
    {selected : SelectedEbuild} (hs : s.emerge.selected[sel]? = some selected) {candidate : Ebuild}
    (ha : atomMatches atom candidate = some true)
    (hall : ∀ p ∈ s.answers, p.2 = .selected sel → atomMatches p.1 candidate = some true) :
    changeTest atom selected candidate = .ok true := by
  have hprev : ∀ prev : List Atom, (∀ a ∈ prev, atomMatches a candidate = some true) →
      prevAtomsMatch candidate true prev = .ok true := by
    intro prev
    induction prev with
    | nil => exact fun _ => rfl
    | cons a prev ih =>
      intro h
      rw [prevAtomsMatch, matchesEbuild_of (h a List.mem_cons_self)]
      exact ih fun b hb => h b (List.mem_cons_of_mem _ hb)
  rw [changeTest, matchesEbuild_of ha]
  exact hprev _ fun a hm => hall _ (hr sel selected hs a hm) rfl

theorem matchesEbuild_error {atom : Atom} {ebuild : Ebuild} {e : Stop}
    (h : matchesEbuild atom ebuild = .error e) : e = .aborted := by
  rw [matchesEbuild] at h
  split at h
  · exact absurd h (by simp)
  · exact (Except.error.inj h).symm

theorem changeTest_error {atom : Atom} {selected : SelectedEbuild} {candidate : Ebuild} {e : Stop}
    (h : changeTest atom selected candidate = .error e) : e = .aborted := by
  have hprev : ∀ (prev : List Atom) (m : Bool),
      prevAtomsMatch candidate m prev = .error e → e = .aborted := by
    intro prev
    induction prev with
    | nil => intro m h; exact absurd h (by simp [prevAtomsMatch])
    | cons a prev ih =>
      intro m h
      rw [prevAtomsMatch] at h
      cases ha : matchesEbuild a candidate with
      | error e' =>
        rw [ha] at h
        exact Except.error.inj h ▸ matchesEbuild_error ha
      | ok b =>
        rw [ha] at h
        cases b with
        | true => exact ih _ h
        | false => exact absurd h (by simp [Except.bind])
  rw [changeTest] at h
  cases ha : matchesEbuild atom candidate with
  | error e' =>
    rw [ha] at h
    exact Except.error.inj h ▸ matchesEbuild_error ha
  | ok b =>
    rw [ha] at h
    exact hprev _ _ h

theorem opens_alike_iff {emerge : Emerge} {atom : Atom} {ebuild : Ebuild} (h : emerge.Opens atom ebuild) :
    Package.TellsAlike atom ebuild ↔ atomMatches atom ebuild = some true := by
  obtain ⟨_, -, -, htakes⟩ : emerge.portage.Offers atom ebuild := by
    rcases h with h | ⟨pkg, slot, hunmatched, -⟩
    · exact h.1
    · exact hunmatched.1.1
  obtain ⟨d, hd, -⟩ := id htakes
  rw [Package.tellsAlike_iff_matches hd, iff_true_left htakes, Package.Matches]

/-- The condition, by the way of the call. -/
theorem selectOk_iff (s : SelectionRun) (atom : Atom) : s.SelectOk atom ↔
    match s.emerge.way atom with
    | .raises | .reuses _ => True
    | .aborts | .unknownSlot => False
    | .creates _ _ ebuild => atomMatches atom ebuild = some true
    | .changes sel candidate => atomMatches atom candidate = some true ∧
        ∀ p ∈ s.answers, p.2 = .selected sel → atomMatches p.1 candidate = some true := by
  have hopens : ∀ ebuild, s.emerge.Opens atom ebuild →
      (Package.TellsAlike atom ebuild ↔ atomMatches atom ebuild = some true) := fun _ => opens_alike_iff
  constructor
  · rintro ⟨hdefined, hslot, hnew, hchanges⟩
    cases hway : s.emerge.way atom with
    | raises | reuses => trivial
    | aborts => exact hdefined (Emerge.undefined_iff.mpr hway)
    | unknownSlot => exact hslot (Emerge.lacksSlot_iff.mpr hway)
    | creates key pkg ebuild =>
      have h := Emerge.opens_iff.mpr ⟨key, pkg, hway⟩
      exact (hopens ebuild h).mp (hnew ebuild h)
    | changes sel candidate => exact hchanges sel candidate (Emerge.changes_iff.mpr hway)
  · intro h
    refine ⟨fun hu => ?_, fun hl => ?_, fun ebuild ho => (hopens ebuild ho).mpr ?_, fun sel candidate hc => ?_⟩
    · rwa [Emerge.way_of_undefined hu] at h
    · rwa [Emerge.way_of_lacksSlot hl] at h
    · obtain ⟨key, pkg, hway⟩ := Emerge.way_of_opens ho
      rwa [hway] at h
    · rwa [Emerge.way_of_changes hc] at h

theorem step_kept {s : SelectionRun} (hr : Recorded s) (hk : Kept s) (i : SelectionStep) :
    Recorded (step s i) ∧ (Kept (step s i) ↔ StepOk s i) := by
  cases i with
  | initializeMetadata ebuild => exact ⟨hr, fun _ => trivial, fun _ => hk⟩
  | selectAtom parent atom =>
    have hw := selectAtom_went s.emerge parent atom
    rw [step, StepOk, selectOk_iff]
    have hsame (answer : Answer) : Recorded { s with answers := s.answers ++ [(atom, answer)] } :=
      fun sel selected hs a ha => List.mem_append_left _ (hr sel selected hs a ha)
    cases hway : s.emerge.way atom with
    | raises =>
      rw [hway] at hw
      obtain ⟨e, he⟩ := hw
      rw [he]
      exact ⟨hr, fun _ => trivial, fun _ => hk⟩
    | aborts =>
      rw [hway] at hw
      obtain ⟨e, he, hne⟩ := hw
      rw [he]
      cases e with
      | raised e' => exact absurd rfl (hne e')
      | diverged | aborted =>
        exact ⟨hsame _, fun h => not_satisfied_never (kept_append.mp h).2, False.elim⟩
    | reuses sel =>
      rw [hway] at hw
      obtain ⟨he, selected, hs, hm⟩ := hw
      rw [he]
      exact ⟨hsame _, fun _ => trivial,
        fun _ => kept_append.mpr ⟨hk, (satisfied_selected hs).mpr hm⟩⟩
    | unknownSlot =>
      rw [hway] at hw
      rw [show _ = _ from hw]
      exact ⟨hsame _, fun h => not_satisfied_nothing (kept_append.mp h).2, False.elim⟩
    | creates key pkg ebuild =>
      rw [hway] at hw
      obtain ⟨emerge', hadd, hsel⟩ := addAtom_selected s.emerge key pkg parent atom ebuild
      rw [show _ = _ from hw, hadd]
      exact ⟨recorded_append hr hsel, kept_creates hk hsel⟩
    | changes sel candidate =>
      rw [hway] at hw
      obtain ⟨selected, hs, he⟩ := hw
      have htrue : (atomMatches atom candidate = some true ∧ ∀ p ∈ s.answers,
          p.2 = .selected sel → atomMatches p.1 candidate = some true) →
          changeTest atom selected candidate = .ok true :=
        fun h => changeTest_true hr hs h.1 h.2
      rw [he]
      cases htest : changeTest atom selected candidate with
      | error e =>
        obtain rfl := changeTest_error htest
        refine ⟨hsame _, fun h => absurd (kept_append.mp h).2 not_satisfied_never, fun h => ?_⟩
        rw [htrue h] at htest
        exact absurd htest (by simp)
      | ok m =>
        cases m with
        | true => exact ⟨recorded_changed hr hs candidate _, kept_changed hk hs candidate⟩
        | false =>
          refine ⟨hsame _, fun h => absurd (kept_append.mp h).2 not_satisfied_never, fun h => ?_⟩
          rw [htrue h] at htest
          exact absurd htest (by simp)

/-- All calls of a run that do not raise return a SelectedEbuild, and go on being
satisfied by it, exactly when every call meets its condition. -/
theorem selections_kept_iff (portage : Portage) (globals : UseHeap) (cache : Nat → CacheFile)
    (read : List Nat) (steps : List SelectionStep) :
    Always (fun s i => some (step s i)) Kept (start portage globals cache read) steps ↔
      AllOk (fun s i => some (step s i)) StepOk (start portage globals cache read) steps := by
  have hstep : ∀ s i, Recorded s → Kept s →
      ∃ t, some (step s i) = some t ∧ Recorded t ∧ (Kept t ↔ StepOk s i) :=
    fun s i hr hk => ⟨step s i, rfl, step_kept hr hk i⟩
  refine always_iff_allOk hstep ?_ ?_ steps
  · intro sel selected hs
    exact absurd hs (by simp [start, Emerge.init])
  · simp [Kept, start]

/-- A repository with the versions 1.0 and 2.0 of `app-misc/foo`. -/
def fooRepository : Portage :=
  let file (version : String) : RepoFile :=
    { category := "app-misc".toList
      nameAndVersion := ("foo-" ++ version).toList
      ebuildFound := true
      cacheFile := some ("cache/app-misc/foo-" ++ version).toList }
  (Portage.init.initializeRepository [file "1.0", file "2.0"]).getD Portage.init

/-- An atom of this package, with the id the repository knows it by. -/
def fooRequest (range : AtomRange) (t : VersionText) : Atom :=
  { fooAtom range t with
    id := (Lut.lutGetId fooRepository.packages "app-misc/foo".toList).1 }

/-- `=app-misc/foo-2.0`, then `<app-misc/foo-2.0`. -/
def fooRequests : List SelectionStep :=
  [.selectAtom none (fooRequest .e Package.foo20), .selectAtom none (fooRequest .l Package.foo20)]

def fooStart : SelectionRun :=
  start fooRepository UseHeap.init (fun _ => { fields := .blank, ok := true }) []

/-- With no slot read the second call returns None. -/
theorem second_request_nothing :
    ¬ ∀ portage globals cache read steps,
      Always (fun s i => some (step s i)) Kept (start portage globals cache read) steps := by
  intro hall
  have hrun : (fooRequests.foldl step fooStart).answers =
      [(fooRequest .e Package.foo20, .selected 0), (fooRequest .l Package.foo20, .nothing)] := by
    decide +kernel
  have hkept : Kept (fooRequests.foldl step fooStart) := (hall _ _ _ _ fooRequests).last
  rw [Kept, hrun] at hkept
  exact not_satisfied_nothing (hkept _ (List.mem_cons_of_mem _ List.mem_cons_self))

end SelectionRun

end AutoGentoo
