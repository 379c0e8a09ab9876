import AutoGentoo.Regenerate
import AutoGentoo.SlotTables

/-! Runs of `add_block` and `select_atom`: what is blocked against what is
selected. -/

namespace AutoGentoo

open GuardedRun

inductive BlockStep
  | addBlock (atom : Atom)
  | selectAtom (parent : Option Nat) (atom : Atom)
  | initializeMetadata (ebuild : Ebuild)
  deriving DecidableEq, Repr

namespace Emerge

/-- The atom has been recorded by `add_block`. -/
def Blocks (self : Emerge) (atom : Atom) : Prop :=
  ∃ key atoms, Dict.get self.blocks key = some atoms ∧ atom ∈ atoms

/-- No ebuild in a table matches a recorded atom. -/
def NoneBlocked (self : Emerge) : Prop :=
  ∀ key slot ebuild, self.held key slot = some ebuild →
    ∀ atom, self.Blocks atom → atomMatches atom ebuild ≠ some true

end Emerge

namespace BlockStep

open Emerge

/-- The state after a call, also one that raises. -/
def step (s : Emerge) : BlockStep → Emerge
  | .addBlock atom => (AutoGentoo.addBlock atom s).2
  | .selectAtom parent atom => (ofCall (AutoGentoo.selectAtom parent atom) s).2
  | .initializeMetadata ebuild => (AutoGentoo.initializeMetadata ebuild s).2

/-- What neither `add_block` nor `select_atom` looks at: a new block matches
nothing selected, and what is newly selected matches no block. -/
def StepOk (s : Emerge) : BlockStep → Prop
  | .addBlock atom => ∀ key slot ebuild, s.held key slot = some ebuild →
      atomMatches atom ebuild ≠ some true
  | .selectAtom _ atom => ∀ block, s.Blocks block →
      (∀ ebuild, s.Opens atom ebuild → atomMatches block ebuild ≠ some true) ∧
        ∀ sel candidate, s.Changes atom sel candidate → s.Switches atom sel candidate →
          atomMatches block candidate ≠ some true
  | .initializeMetadata _ => True

end BlockStep

namespace Emerge

theorem blocks_addBlock (self : Emerge) (atom block : Atom) :
    (addBlock atom self).2.Blocks block ↔ block = atom ∨ self.Blocks block := by
  constructor
  · rintro ⟨key, atoms, hget, hmem⟩
    change Dict.get (Dict.set self.blocks atom.key _) key = some atoms at hget
    rw [Dict.get_set] at hget
    split at hget
    · obtain rfl := Option.some.inj hget
      rcases List.mem_append.mp hmem with hold | hnew
      · cases hd : Dict.get self.blocks atom.key with
        | none => simp [hd] at hold
        | some old => exact .inr ⟨atom.key, old, hd, by simpa [hd] using hold⟩
      · exact .inl (List.mem_singleton.mp hnew)
    · exact .inr ⟨key, atoms, hget, hmem⟩
  · rintro (rfl | ⟨key, atoms, hget, hmem⟩)
    · exact ⟨block.key, _, Dict.get_set_self .., List.mem_append_right _ (List.mem_singleton.mpr rfl)⟩
    · by_cases hkey : atom.key = key
      · refine ⟨key, atoms ++ [atom], ?_, List.mem_append_left _ hmem⟩
        show Dict.get (Dict.set self.blocks atom.key _) key = _
        rw [hkey, Dict.get_set_self, hget]
        rfl
      · refine ⟨key, atoms, ?_, hmem⟩
        show Dict.get (Dict.set self.blocks atom.key _) key = _
        rw [Dict.get_set, if_neg hkey, hget]

theorem ofCall_selectAtom (self : Emerge) (parent : Option Nat) (atom : Atom) :
    (ofCall (selectAtom parent atom) self).2 = self.selects parent atom := by
  rw [ofCall]
  rcases selectAtom_selects self parent atom with ⟨r, he⟩ | ⟨⟨e, he⟩, hs⟩
  · rw [he]
  · rw [he, hs]

theorem noneBlocked_addBlock {self : Emerge} (h : self.NoneBlocked) (atom : Atom) :
    (addBlock atom self).2.NoneBlocked ↔ BlockStep.StepOk self (.addBlock atom) := by
  constructor
  · intro h' key slot ebuild he
    exact h' key slot ebuild he atom ((blocks_addBlock self atom atom).mpr (.inl rfl))
  · intro hok key slot ebuild he block hb
    rcases (blocks_addBlock self atom block).mp hb with rfl | hb
    · exact hok key slot ebuild he
    · exact h key slot ebuild he block hb

theorem noneBlocked_selects {self : Emerge} (hf : self.Filed) (h : self.NoneBlocked)
    (parent : Option Nat) (atom : Atom) :
    (self.selects parent atom).NoneBlocked ↔ BlockStep.StepOk self (.selectAtom parent atom) := by
  rw [BlockStep.StepOk]
  cases hway : self.way atom with
  | raises | aborts | reuses | unknownSlot =>
    rw [Emerge.selects, hway]
    refine iff_of_true h fun block _ => ⟨fun ebuild ho => ?_, fun sel candidate hc => ?_⟩
    · obtain ⟨key, pkg, hw⟩ := way_of_opens ho
      exact absurd (hway.symm.trans hw) (by simp)
    · exact absurd (hway.symm.trans (way_of_changes hc)) (by simp)
  | creates key pkg ebuild =>
    rw [Emerge.selects, hway]
    constructor
    · intro h' block hb
      refine ⟨fun e ho => ?_, fun sel candidate hc => ?_⟩
      · obtain ⟨key', pkg', hw⟩ := way_of_opens ho
        obtain ⟨rfl, rfl, rfl⟩ := Way.creates.inj (hway.symm.trans hw)
        exact h' key _ ebuild (held_created_new self key pkg parent atom ebuild) block hb
      · exact absurd (hway.symm.trans (way_of_changes hc)) (by simp)
    · intro hok key' slot e he block hb
      rcases held_created hf (way_creates hway) he with ⟨-, -, rfl⟩ | hold
      · exact (hok block hb).1 e (opens_iff.mpr ⟨key, pkg, hway⟩)
      · exact h key' slot e hold block hb
  | changes sel candidate =>
    have hchanges := changes_iff.mpr hway
    obtain ⟨key, slot, hentry⟩ := hchanges.entry
    have honly : ∀ block, ((∀ ebuild, self.Opens atom ebuild → atomMatches block ebuild ≠ some true) ∧
        ∀ sel candidate, self.Changes atom sel candidate → self.Switches atom sel candidate →
          atomMatches block candidate ≠ some true) ↔
        (self.Switches atom sel candidate → atomMatches block candidate ≠ some true) := by
      intro block
      refine ⟨fun hok => hok.2 sel candidate hchanges, fun hok => ⟨fun ebuild ho => ?_, fun sel' c hc => ?_⟩⟩
      · obtain ⟨key, pkg, hw⟩ := way_of_opens ho
        exact absurd (hway.symm.trans hw) (by simp)
      · obtain ⟨rfl, rfl⟩ := Way.changes.inj (hway.symm.trans (way_of_changes hc))
        exact hok
    simp only [honly]
    rw [Emerge.selects, hway]
    rcases switched_cases self atom sel candidate with ⟨selected, hs, hsw, he⟩ | ⟨hsw, he⟩
    · simp only [he]
      constructor
      · intro h' block hb _
        refine h' key slot candidate ?_ block hb
        rw [held_changed hs, if_pos hentry]
      · intro hok key' slot' e hheld block hb
        rw [held_changed hs] at hheld
        split_ifs at hheld with hk
        · obtain rfl := Option.some.inj hheld
          exact hok block hb hsw
        · exact h key' slot' e hheld block hb
    · simp only [he]
      exact ⟨fun _ _ _ hsw' => absurd hsw' hsw, fun _ => h⟩

end Emerge

namespace BlockStep

open Emerge

theorem filed_step {s : Emerge} (hf : s.Filed) (i : BlockStep) : (step s i).Filed := by
  cases i with
  | addBlock atom => exact hf
  | selectAtom parent atom =>
    rw [step, ofCall_selectAtom]
    exact hf.selects parent atom
  | initializeMetadata ebuild => exact hf

theorem step_noneBlocked {s : Emerge} (hf : s.Filed) (h : s.NoneBlocked) (i : BlockStep) :
    (step s i).NoneBlocked ↔ StepOk s i := by
  cases i with
  | addBlock atom => exact noneBlocked_addBlock h atom
  | selectAtom parent atom =>
    rw [step, ofCall_selectAtom]
    exact noneBlocked_selects hf h parent atom
  | initializeMetadata ebuild => exact ⟨fun _ => trivial, fun _ => h⟩

/-- No ebuild is selected that a recorded atom blocks, all along a run, exactly
when each call comes to meet what it does not look at. -/
theorem blocks_respected_iff (portage : Portage) (globals : UseHeap) (cache : Nat → CacheFile)
    (read : List Nat) (steps : List BlockStep) :
    Always (fun s i => some (step s i)) NoneBlocked (Emerge.init portage globals cache read) steps ↔
      AllOk (fun s i => some (step s i)) StepOk (Emerge.init portage globals cache read) steps := by
  have hstep : ∀ s i, s.Filed → s.NoneBlocked →
      ∃ t, some (step s i) = some t ∧ t.Filed ∧ (t.NoneBlocked ↔ StepOk s i) :=
    fun s i hf h => ⟨step s i, rfl, filed_step hf i, step_noneBlocked hf h i⟩
  refine always_iff_allOk hstep ?_ ?_ steps
  · intro key slot sel h
    exact absurd h (by simp [entry, Emerge.init])
  · intro key slot ebuild h
    exact absurd h (by simp [held, entry, Emerge.init])

/-- `!=app-misc/foo-2.0` -/
def fooBlock : Atom := { SelectionRun.fooRequest .e Package.foo20 with blocks := .soft }

/-- The block, then `=app-misc/foo-2.0`. -/
def blockThenSelect : List BlockStep :=
  [.addBlock fooBlock, .selectAtom none (SelectionRun.fooRequest .e Package.foo20)]

/-- The version is selected all the same. -/
theorem blocked_selected :
    ¬ ∀ portage globals cache read steps, Always (fun s i => some (step s i)) NoneBlocked
      (Emerge.init portage globals cache read) steps := by
  intro hall
  let s : Emerge := blockThenSelect.foldl step (Emerge.init SelectionRun.fooRepository UseHeap.init
    (fun _ => { fields := .blank, ok := true }) [])
  have hlast : s.NoneBlocked := (hall _ _ _ _ blockThenSelect).last
  have hheld : (s.held "app-misc/foo".toList none).map (atomMatches fooBlock) = some (some true) := by
    decide +kernel
  have hblocks : Dict.get s.blocks "app-misc/foo".toList = some [fooBlock] := by decide +kernel
  obtain ⟨ebuild, he, hm⟩ := Option.map_eq_some_iff.mp hheld
  exact hlast _ _ ebuild he fooBlock ⟨_, _, hblocks, List.mem_cons_self⟩ hm

end BlockStep

end AutoGentoo
