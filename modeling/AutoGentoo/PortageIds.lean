import AutoGentoo.GuardedRun
import AutoGentoo.LutRefinement
import AutoGentoo.Portage

/-! The ids atoms carry against the packages that come to stand under them. -/

namespace AutoGentoo

open Lut GuardedRun

/-- What the grammar adds to an atom behind `atom_init`. -/
structure Decoration where
  range : AtomRange
  blocks : AtomBlock
  slot : Option (List Char)
  subSlot : Option (List Char)
  slotOpts : AtomSlot
  repository : Option (List Char)
  useflags : List AtomFlag
  deriving DecidableEq, Repr

def Atom.decorate (self : Atom) (d : Decoration) : Atom :=
  { self with
    range := d.range
    blocks := d.blocks
    slot := d.slot
    subSlot := d.subSlot
    slotOpts := d.slotOpts
    repository := d.repository
    useflags := d.useflags }

/-- The one Portage object and the atoms made so far. -/
structure Session where
  portage : Portage
  atoms : List Atom
  deriving DecidableEq, Repr

inductive SessionStep
  | newAtom (text : List Char) (decoration : Decoration)
  | newPackage (key : List Char)
  | addEbuild (address : Nat) (ebuild : Ebuild) (owned : Bool)
  | addPackage (address : Nat)
  | initializeRepository (files : List RepoFile)
  deriving DecidableEq, Repr

namespace Session

def init : Session := { portage := Portage.init, atoms := [] }

def step (s : Session) : SessionStep → Option Session
  | .newAtom text d =>
    match atomInit s.portage.packages text with
    | .ok atom => some { s with atoms := s.atoms ++ [atom.decorate d] }
    | .error .invalid => some s
    | .error .nullVersion => none
  | .newPackage key => (s.portage.newPackage key 0).map fun r => { s with portage := r.1 }
  | .addEbuild address ebuild owned =>
    (s.portage.addEbuildAt address ebuild owned).map fun r =>
      match r with
      | .ok p => { s with portage := p }
      | .error _ => s
  | .addPackage address => (s.portage.addPackage address).map fun p => { s with portage := p }
  | .initializeRepository files =>
    (s.portage.initializeRepository files).map fun p => { s with portage := p }

/-- A key the table does not have yet gets an id that no atom of another key
carries, and its hash has fewer than `2 ^ 16` keys. -/
def KeyOk (p : Portage) (atoms : List Atom) (key : List Char) : Prop :=
  content p.packages key = none →
    (p.packages.nodesOf (mapGetHash key)).length + 1 < 2 ^ 16 ∧
      ∀ atom ∈ atoms, atom.key ≠ key → atom.id ≠ (lutGetId p.packages key).1

instance KeyOk.decidable (p : Portage) (atoms : List Atom) (key : List Char) : Decidable (KeyOk p atoms key) :=
  inferInstanceAs (Decidable (_ → _))

/-- The key of the package a file belongs to. -/
def fileKey (p : Portage) (file : RepoFile) : List Char :=
  match atomInit p.packages (file.category ++ '/' :: file.nameAndVersion) with
  | .ok atom => atom.key
  | .error _ => []

def FilesOk (atoms : List Atom) (p : Portage) : List RepoFile → Prop
  | [] => True
  | file :: files =>
    KeyOk p atoms (fileKey p file) ∧
      ∀ p', p.initializeFile file = some (.ok p') → FilesOk atoms p' files

/-- What is to hold of the result of a call is decided by making the call. -/
instance decidableResult (r : Option (Except PortageError Portage)) (P : Portage → Prop) [∀ p, Decidable (P p)] :
    Decidable (∀ p, r = some (.ok p) → P p) :=
  match r with
  | some (.ok p) => decidable_of_iff (P p)
    ⟨fun hp _ h => Except.ok.inj (Option.some.inj h) ▸ hp, fun h => h p rfl⟩
  | some (.error _) => isTrue fun _ h => absurd (Option.some.inj h) (by simp)
  | none => isTrue fun _ h => absurd h (by simp)

instance FilesOk.decidable (atoms : List Atom) :
    (p : Portage) → (files : List RepoFile) → Decidable (FilesOk atoms p files)
  | _, [] => isTrue trivial
  | p, file :: files =>
    have : ∀ p', Decidable (FilesOk atoms p' files) := fun p' => FilesOk.decidable atoms p' files
    inferInstanceAs (Decidable (KeyOk p atoms (fileKey p file) ∧
      ∀ p', p.initializeFile file = some (.ok p') → FilesOk atoms p' files))

/-- What a step must not do for ids to stay with their keys. -/
def StepOk (s : Session) : SessionStep → Prop
  | .newAtom _ _ => True
  | .newPackage _ => True
  | .addEbuild address ebuild _ =>
    ∀ pkg, s.portage.deref address = some pkg → ebuild.packageKey = pkg.key
  | .addPackage address => ∀ pkg, s.portage.deref address = some pkg →
    KeyOk s.portage s.atoms pkg.key
  | .initializeRepository files => FilesOk s.atoms s.portage files

structure Inv (p : Portage) (atoms : List Atom) : Prop where
  valid : Valid p.packages
  few : ∀ h, (p.packages.nodesOf h).length < 2 ^ 16
  filed : ∀ key i d, content p.packages key = some (i, d) →
    ∃ pkg, p.deref d = some pkg ∧ pkg.key = key
  owned : ∀ pkg ∈ p.objects, ∀ e ∈ pkg.ebuilds, e.packageKey = pkg.key
  ids : ∀ atom ∈ atoms, (lutGetId p.packages atom.key).1 = atom.id

theorem deref_mem {p : Portage} {address : Nat} {pkg : Package}
    (h : p.deref address = some pkg) : pkg ∈ p.objects := by
  cases address with
  | zero => simp [Portage.deref] at h
  | succ a => exact List.mem_of_getElem? h

theorem deref_store {p : Portage} {address : Nat} {pkg pkg' : Package}
    (h : p.deref address = some pkg) (a : Nat) :
    (p.store address pkg').deref a = if a = address then some pkg' else p.deref a := by
  cases address with
  | zero => simp [Portage.deref] at h
  | succ n =>
    cases a with
    | zero => simp [Portage.deref]
    | succ m =>
      have hlt : n < p.objects.length := (List.getElem?_eq_some_iff.mp h).1
      simp only [Portage.deref, Portage.store, Nat.add_sub_cancel, List.getElem?_set,
        Nat.add_right_cancel_iff]
      by_cases he : m = n
      · simp [he, hlt]
      · simp [he, Ne.symm he]

variable {p : Portage} {atoms : List Atom}

theorem Inv.store (hi : Inv p atoms) {address : Nat} {pkg pkg' : Package}
    (h : p.deref address = some pkg) (hkey : pkg'.key = pkg.key)
    (hown : ∀ e ∈ pkg'.ebuilds, e.packageKey = pkg'.key) : Inv (p.store address pkg') atoms := by
  refine ⟨hi.valid, hi.few, fun key i d hc => ?_, fun x hx => ?_, hi.ids⟩
  · obtain ⟨y, hy, hk⟩ := hi.filed key i d hc
    rw [deref_store h]
    split_ifs with he
    · rw [he, h] at hy
      exact ⟨pkg', rfl, hkey.trans (Option.some.inj hy ▸ hk)⟩
    · exact ⟨y, hy, hk⟩
  · rcases List.mem_or_eq_of_mem_set hx with hx | rfl
    · exact hi.owned x hx
    · exact hown

theorem Inv.newPackage (hi : Inv p atoms) {key : List Char} {id : Nat} {r : Portage × Nat}
    (h : p.newPackage key id = some r) :
    Inv r.1 atoms ∧ r.1.packages = p.packages ∧
      ∃ pkg, r.1.deref r.2 = some pkg ∧ pkg.key = key := by
  obtain ⟨split, -, rfl⟩ := Option.map_eq_some_iff.mp h
  refine ⟨⟨hi.valid, hi.few, fun key i d hc => ?_, fun x hx => ?_, hi.ids⟩, rfl, ?_⟩
  · obtain ⟨y, hy, hk⟩ := hi.filed key i d hc
    refine ⟨y, ?_, hk⟩
    cases d with
    | zero => simp [Portage.deref] at hy
    | succ n =>
      have hlt : n < p.objects.length := (List.getElem?_eq_some_iff.mp hy).1
      exact (List.getElem?_append_left hlt).trans hy
  · rcases List.mem_append.mp hx with hx | hx
    · exact hi.owned x hx
    · rw [List.mem_singleton.mp hx]
      simp
  · simp [Portage.deref]

theorem few_of_inserted (hi : Inv p atoms) {lut' : Lut} {key : List Char} {id data : Nat}
    (h : Inserted p.packages lut' key id data) (hk : KeyOk p atoms key) (k : Nat) :
    (lut'.nodesOf k).length < 2 ^ 16 := by
  rw [h.length_eq]
  split_ifs with hnew
  · obtain ⟨hnone, rfl⟩ := hnew
    exact (hk hnone).1
  · exact hi.few k

/-- Atoms keep their ids when a key is filed. -/
theorem ids_of_inserted (hi : Inv p atoms) {lut' : Lut} {key : List Char} {data : Nat}
    (h : Inserted p.packages lut' key (lutGetId p.packages key).1 data) (hk : KeyOk p atoms key)
    {atom : Atom} (hatom : atom ∈ atoms) : (lutGetId lut' atom.key).1 = atom.id := by
  have hid := hi.ids atom hatom
  by_cases hkey : atom.key = key
  · have hcon : content lut' key = some ((lutGetId p.packages key).1, data) := by
      rw [h.content_eq, Function.update_self]
    have hnow := (h.valid.found hcon).1
    rw [hkey] at hid ⊢
    rw [hnow, hid]
  have hsame : content lut' atom.key = content p.packages atom.key := by
    rw [h.content_eq, Function.update_of_ne hkey]
  cases hcon : content p.packages atom.key with
  | some c =>
    rw [(h.valid.found (hsame.trans hcon)).1]
    rw [(hi.valid.found hcon).1] at hid
    exact hid
  | none =>
    obtain ⟨id, hold, heq, -, -⟩ := hi.valid.absent hcon (hi.few _)
    obtain ⟨id', hnew, heq', -, -⟩ :=
      h.valid.absent (hsame.trans hcon) (few_of_inserted hi h hk _)
    rw [hold] at hid
    rw [hnew, ← hid, heq, heq', h.length_eq]
    split_ifs with hfresh
    · obtain ⟨hnone, hhash⟩ := hfresh
      obtain ⟨kid, hkid, hkeq, -, -⟩ := hi.valid.absent hnone (hi.few _)
      refine absurd ?_ ((hk hnone).2 atom hatom hkey)
      rw [hkid, ← hid, heq, hkeq, hhash]
    · rfl

theorem Inv.insert (hi : Inv p atoms) {address : Nat} {pkg : Package}
    (h : p.deref address = some pkg) (hk : KeyOk p atoms pkg.key) :
    ∃ lut', lutInsert p.packages pkg.key address lutFlagPython =
        some (lut', (lutGetId p.packages pkg.key).1) ∧
      Inv { p with packages := lut' } atoms := by
  have hpy : lutFlagPython ∈ callerFlags := by decide
  obtain ⟨lut', hins, hi'⟩ := lutInsert_spec hi.valid
    { key := pkg.key, data := address, flags := lutFlagPython } (fun _ => hi.few _) hpy
  refine ⟨lut', hins, hi'.valid, few_of_inserted hi hi' hk, fun key i d hcon => ?_, hi.owned,
    fun atom hatom => ids_of_inserted hi hi' hk hatom⟩
  by_cases hkey : key = pkg.key
  · rw [hkey, hi'.content_eq, Function.update_self, Option.some.injEq, Prod.mk.injEq] at hcon
    exact ⟨pkg, hcon.2 ▸ h, hkey.symm⟩
  · rw [hi'.content_eq, Function.update_of_ne hkey] at hcon
    exact hi.filed key i d hcon

theorem Inv.addPackage (hi : Inv p atoms) {address : Nat} {p' : Portage}
    (hok : ∀ pkg, p.deref address = some pkg → KeyOk p atoms pkg.key)
    (h : p.addPackage address = some p') : Inv p' atoms := by
  obtain ⟨pkg, hpkg, h⟩ := Option.bind_eq_some_iff.mp h
  obtain ⟨lut', hins, hi'⟩ := hi.insert hpkg (hok pkg hpkg)
  simp only [hins, Option.bind_eq_bind, Option.bind_some, Option.pure_def, Option.some.injEq] at h
  rw [← h]
  exact hi'.store hpkg rfl (hi.owned pkg (deref_mem hpkg))

theorem addLoop_mem {ebuild : Ebuild} {es es' : List Ebuild}
    (h : Package.addLoop ebuild es = some (.ok es')) : ∀ e ∈ es', e = ebuild ∨ e ∈ es := by
  induction es generalizing es' with
  | nil =>
    obtain rfl : [ebuild] = es' := by simpa [Package.addLoop] using h
    simp
  | cons x es ih =>
    rw [Package.addLoop] at h
    split_ifs at h with haddr
    · exact absurd h (by simp)
    obtain ⟨d, -, h⟩ := Option.bind_eq_some_iff.mp h
    split_ifs at h with hd
    · simp only [Option.pure_def, Option.some.injEq, Except.ok.injEq] at h
      rw [← h]
      simp
    · obtain ⟨r, hr, h⟩ := Option.bind_eq_some_iff.mp h
      cases r with
      | error e => simp [Except.map] at h
      | ok rest =>
        simp only [Except.map, Option.pure_def, Option.some.injEq, Except.ok.injEq] at h
        rw [← h]
        intro e he
        rcases List.mem_cons.mp he with rfl | he
        · exact .inr (by simp)
        · rcases ih hr e he with rfl | he
          · exact .inl rfl
          · exact .inr (by simp [he])

theorem Inv.addEbuildAt (hi : Inv p atoms) {address : Nat} {ebuild : Ebuild} {owned : Bool}
    {p' : Portage} (hok : ∀ pkg, p.deref address = some pkg → ebuild.packageKey = pkg.key)
    (h : p.addEbuildAt address ebuild owned = some (.ok p')) : Inv p' atoms := by
  obtain ⟨pkg, hpkg, h⟩ := Option.bind_eq_some_iff.mp h
  obtain ⟨r, hr, h⟩ := Option.bind_eq_some_iff.mp h
  cases r with
  | error e => simp at h
  | ok pkg' =>
    simp only [Option.pure_def, Option.some.injEq, Except.ok.injEq] at h
    rw [← h]
    rw [Package.addEbuild] at hr
    split_ifs at hr
    · exact absurd hr (by simp)
    obtain ⟨es, hes, he⟩ := Option.map_eq_some_iff.mp hr
    cases es with
    | error e => simp [Except.map] at he
    | ok es =>
      simp only [Except.map, Except.ok.injEq] at he
      rw [← he]
      refine hi.store hpkg rfl (fun e hmem => ?_)
      rcases addLoop_mem hes e hmem with rfl | hmem
      · exact hok pkg hpkg
      · exact hi.owned pkg (deref_mem hpkg) e hmem

theorem lutGetId_flag (hi : Inv p atoms) (key : List Char) :
    content p.packages key = none ↔ (lutGetId p.packages key).2 &&& lutFlagNotFound ≠ 0 := by
  cases hc : content p.packages key with
  | none =>
    obtain ⟨id, hid, -⟩ := hi.valid.absent hc (hi.few _)
    rw [hid]
    exact iff_of_true rfl (by decide : lutFlagNotFound &&& lutFlagNotFound ≠ 0)
  | some c =>
    rw [(hi.valid.found hc).1]
    exact iff_of_false (by simp)
      (by decide : ¬ (lutFlagExists &&& lutFlagNotFound ≠ 0))

theorem ebuildInit_key {packages : Lut} {addr : Nat} {file : RepoFile} {ebuild : Ebuild}
    {flags : Nat} (h : ebuildInit packages addr file = some (.ok (ebuild, flags))) :
    (∃ atom, atomInit packages (file.category ++ '/' :: file.nameAndVersion) = .ok atom ∧
        atom.key = ebuild.packageKey) ∧
      lutGetId packages ebuild.packageKey = (ebuild.packageId, flags) := by
  simp only [ebuildInit] at h
  cases hatom : atomInit packages (file.category ++ '/' :: file.nameAndVersion) with
  | error e => simp [hatom] at h
  | ok atom =>
    simp only [hatom] at h
    split_ifs at h
    · exact absurd h (by simp)
    cases hf : file.cacheFile with
    | none => simp [hf] at h
    | some path =>
      simp only [hf, Option.some.injEq, Except.ok.injEq, Prod.mk.injEq] at h
      obtain ⟨rfl, rfl⟩ := h
      exact ⟨⟨atom, rfl, rfl⟩, atomInit_id hatom⟩

theorem Inv.packageFor (hi : Inv p atoms) {ebuild : Ebuild} {flags : Nat} {r : Portage × Nat}
    (hid : lutGetId p.packages ebuild.packageKey = (ebuild.packageId, flags))
    (hk : KeyOk p atoms ebuild.packageKey) (h : p.packageFor ebuild flags = some (.ok r)) :
    Inv r.1 atoms ∧ ∃ pkg, r.1.deref r.2 = some pkg ∧ pkg.key = ebuild.packageKey := by
  have hflag := lutGetId_flag hi ebuild.packageKey
  rw [hid] at hflag
  simp only [Portage.packageFor] at h
  split_ifs at h with hnew
  · obtain ⟨⟨q, address⟩, hq, h⟩ := Option.bind_eq_some_iff.mp h
    obtain ⟨hiq, hpk, pkg, hderef, hkey⟩ := hi.newPackage hq
    simp only at hiq hpk hderef
    have hkq : KeyOk q atoms pkg.key := by
      unfold KeyOk
      rw [hpk, hkey]
      exact hk
    obtain ⟨lut', hins, hi'⟩ := hiq.insert hderef hkq
    obtain ⟨lut, hlut, h⟩ := Option.bind_eq_some_iff.mp h
    have hone : flags = lutFlagNotFound := by
      obtain ⟨id, habs, -⟩ := hi.valid.absent (hflag.mpr hnew) (hi.few _)
      rw [hid] at habs
      exact congrArg Prod.snd habs
    have hsame : lut = lut' := by
      rw [hkey] at hins
      simp only [lutInsert, hpk, hid, hone] at hins
      rw [hpk] at hlut
      simp only [hlut, Option.bind_eq_bind, Option.bind_some, Option.pure_def, Option.some.injEq,
        Prod.mk.injEq] at hins
      exact hins.1
    simp only [Option.pure_def, Option.some.injEq, Except.ok.injEq] at h
    rw [← h, hsame]
    exact ⟨hi', pkg, hderef, hkey⟩
  · exact absurd h (by simp)
  · simp only [Option.some.injEq, Except.ok.injEq] at h
    rw [← h]
    refine ⟨hi, ?_⟩
    cases hc : content p.packages ebuild.packageKey with
    | none => exact absurd (hflag.mp hc) hnew
    | some c =>
      obtain ⟨id, d⟩ := c
      obtain ⟨hid', hget, -⟩ := hi.valid.found hc
      obtain ⟨pkg, hderef, hkey⟩ := hi.filed _ _ _ hc
      rw [hid] at hid'
      have he : ebuild.packageId = id := congrArg Prod.fst hid'
      rw [he, hget]
      exact ⟨pkg, hderef, hkey⟩

theorem Inv.initializeFile (hi : Inv p atoms) {file : RepoFile} {p' : Portage}
    (hk : KeyOk p atoms (fileKey p file)) (h : p.initializeFile file = some (.ok p')) :
    Inv p' atoms := by
  obtain ⟨r, hr, h⟩ := Option.bind_eq_some_iff.mp h
  cases r with
  | error e => simp at h
  | ok made =>
    obtain ⟨ebuild, flags⟩ := made
    obtain ⟨⟨atom, hatom, hkey⟩, hid⟩ := ebuildInit_key hr
    have hfk : fileKey p file = ebuild.packageKey := by
      rw [fileKey, hatom]
      exact hkey
    rw [hfk] at hk
    have him : Inv { p with made := p.made + 1 } atoms :=
      ⟨hi.valid, hi.few, hi.filed, hi.owned, hi.ids⟩
    obtain ⟨r, hr, h⟩ := Option.bind_eq_some_iff.mp h
    cases r with
    | error e => simp at h
    | ok q =>
      obtain ⟨hq, pkg, hderef, hpk⟩ := him.packageFor hid hk hr
      obtain ⟨r, hr, h⟩ := Option.bind_eq_some_iff.mp h
      cases r with
      | error e =>
        simp only [Option.pure_def, Option.some.injEq, Except.ok.injEq] at h
        exact h ▸ hq
      | ok q' =>
        simp only [Option.pure_def, Option.some.injEq, Except.ok.injEq] at h
        refine h ▸ hq.addEbuildAt (fun x hx => ?_) hr
        rw [hderef] at hx
        exact hpk.symm.trans (congrArg Package.key (Option.some.inj hx))

theorem Inv.initializeRepository {files : List RepoFile} (hi : Inv p atoms) {p' : Portage}
    (hok : FilesOk atoms p files) (h : p.initializeRepository files = some p') :
    Inv p' atoms := by
  induction files generalizing p with
  | nil =>
    rw [Portage.initializeRepository, Option.some.injEq] at h
    exact h ▸ hi
  | cons file files ih =>
    obtain ⟨r, hr, h⟩ := Option.bind_eq_some_iff.mp h
    cases r with
    | error e =>
      simp only [Option.pure_def, Option.some.injEq] at h
      exact h ▸ hi
    | ok q => exact ih (hi.initializeFile hok.1 hr) (hok.2 q hr) h

/-- One step, of whatever kind. -/
theorem Inv.step {s s' : Session} {i : SessionStep} (hi : Inv s.portage s.atoms)
    (hok : StepOk s i) (h : step s i = some s') : Inv s'.portage s'.atoms := by
  cases i with
  | newAtom text d =>
    rw [Session.step] at h
    split at h
    · rename_i atom hatom
      rw [Option.some.injEq] at h
      rw [← h]
      refine ⟨hi.valid, hi.few, hi.filed, hi.owned, fun x hx => ?_⟩
      rcases List.mem_append.mp hx with hx | hx
      · exact hi.ids x hx
      · rw [List.mem_singleton.mp hx]
        exact congrArg Prod.fst (atomInit_id hatom)
    · exact (Option.some.inj h) ▸ hi
    · exact absurd h (by simp)
  | newPackage key =>
    obtain ⟨r, hr, rfl⟩ := Option.map_eq_some_iff.mp h
    exact (hi.newPackage hr).1
  | addEbuild address ebuild owned =>
    obtain ⟨r, hr, rfl⟩ := Option.map_eq_some_iff.mp h
    cases r with
    | error e => exact hi
    | ok p => exact hi.addEbuildAt hok hr
  | addPackage address =>
    obtain ⟨q, hq, rfl⟩ := Option.map_eq_some_iff.mp h
    exact hi.addPackage hok hq
  | initializeRepository files =>
    obtain ⟨q, hq, rfl⟩ := Option.map_eq_some_iff.mp h
    exact hi.initializeRepository hok hq

theorem inv_init : Inv Portage.init [] := by
  have hnodes : ∀ h, (lutNew Portage.initialSize).nodesOf h = [] := Chains.ofHash_empty _
  refine ⟨lutNew_valid (by decide), fun h => ?_, fun key i d h => ?_, by simp [Portage.init],
    by simp⟩
  · show ((lutNew Portage.initialSize).nodesOf h).length < 2 ^ 16
    rw [hnodes]
    decide
  · exact absurd (h.symm.trans (lutNew_content Portage.initialSize key)) (by simp)

theorem matchLoop_mem {atom : Atom} {es : List Ebuild} {e : Ebuild}
    (h : Package.matchLoop atom es = some (some e)) : e ∈ es := by
  induction es with
  | nil => simp [Package.matchLoop] at h
  | cons x es ih =>
    obtain ⟨d, -, h⟩ := Option.bind_eq_some_iff.mp h
    split_ifs at h
    · simp only [Option.pure_def, Option.some.injEq] at h
      simp [h]
    · exact absurd h (by simp)
    · exact List.mem_cons_of_mem _ (ih h)

theorem Inv.matchAtom (hi : Inv p atoms) {atom : Atom} (hatom : atom ∈ atoms) {e : Ebuild}
    (h : p.matchAtom atom = some (.ok (some e))) : e.packageKey = atom.key := by
  unfold Portage.matchAtom at h
  split at h
  · exact absurd h (by simp)
  · rename_i pkg hpkg
    obtain ⟨r, hr, he⟩ := Option.map_eq_some_iff.mp h
    rw [Except.ok.injEq] at he
    have hmem : e ∈ pkg.ebuilds := matchLoop_mem (he ▸ hr)
    have hid := hi.ids atom hatom
    rw [hi.owned pkg (deref_mem hpkg) e hmem]
    cases hc : content p.packages atom.key with
    | none =>
      obtain ⟨id, hold, -, hzero, -⟩ := hi.valid.absent hc (hi.few _)
      rw [hold] at hid
      rw [← hid, hzero] at hpkg
      exact absurd hpkg (by simp [Portage.deref])
    | some c =>
      obtain ⟨id, d⟩ := c
      obtain ⟨hold, hget, -⟩ := hi.valid.found hc
      obtain ⟨y, hy, hkey⟩ := hi.filed _ _ _ hc
      rw [hold] at hid
      rw [← hid, hget, hy] at hpkg
      rw [← Option.some.inj hpkg, hkey]

/-- In a run of guarded steps every match is of the atom's own package. -/
theorem matchAtom_key {s : Session} (h : Reaches step StepOk init s) {atom : Atom}
    (hatom : atom ∈ s.atoms) {e : Ebuild} (he : s.portage.matchAtom atom = some (.ok (some e))) :
    e.packageKey = atom.key := by
  have hi := h.invariant (fun s => Inv s.portage s.atoms) inv_init
    (fun _ _ _ hi hok hs => hi.step hok hs)
  exact hi.matchAtom hatom he

def plain : Decoration where
  range := .all
  blocks := .none
  slot := none
  subSlot := none
  slotOpts := .ignore
  repository := none
  useflags := []

/-- The ebuild `a/xssk-1.0`, whose key has the hash of `a/mdhf`. -/
def xsskEbuild : Ebuild where
  addr := 1
  name := "xssk".toList
  category := "a".toList
  packageId := 31702112
  key := "a/xssk-1.0".toList
  packageKey := "a/xssk".toList
  cacheFile := "cache/a/xssk-1.0".toList
  version := some (atomVersionInit "1.0".toList)

/-- The keys of the atoms with the keys of the ebuilds they match. -/
def matchedKeys (s : Session) : List (List Char × List Char) :=
  s.atoms.filterMap fun atom =>
    match s.portage.matchAtom atom with
    | some (.ok (some e)) => some (atom.key, e.packageKey)
    | _ => none

theorem exists_of_matchedKeys {s : Session} {k k' : List Char} (h : (k, k') ∈ matchedKeys s) :
    ∃ atom ∈ s.atoms, ∃ e, s.portage.matchAtom atom = some (.ok (some e)) ∧
      atom.key = k ∧ e.packageKey = k' := by
  obtain ⟨atom, hatom, hm⟩ := List.mem_filterMap.mp h
  split at hm
  · rename_i e he
    simp only [Option.some.injEq, Prod.mk.injEq] at hm
    exact ⟨atom, hatom, e, he, hm.1, hm.2⟩
  · exact absurd hm (by simp)

/-- A package filed before its atom is made. -/
def orderedSteps : List SessionStep :=
  [.newPackage "a/xssk".toList, .addEbuild 1 xsskEbuild false, .addPackage 1,
    .newAtom "a/xssk".toList plain]

theorem orderedSteps_ok : AllOk step StepOk init orderedSteps := by
  refine ⟨trivial, fun s hs => ?_⟩
  obtain rfl := Option.some.inj hs
  refine ⟨fun pkg hpkg => ?_, fun s hs => ?_⟩
  · obtain rfl := Option.some.inj hpkg
    rfl
  obtain rfl := Option.some.inj hs
  refine ⟨fun pkg _ _ => ⟨?_, fun atom hatom => absurd hatom (by simp [init])⟩,
    fun s _ => ⟨trivial, fun _ _ => trivial⟩⟩
  have hnodes : (lutNew Portage.initialSize).nodesOf (mapGetHash pkg.key) = [] :=
    Chains.ofHash_empty _ _
  show ((lutNew Portage.initialSize).nodesOf (mapGetHash pkg.key)).length + 1 < 2 ^ 16
  rw [hnodes]
  decide

theorem matchAtom_key_ordered : ∃ s, run step init orderedSteps = some s ∧
    ∃ atom ∈ s.atoms, ∃ e, s.portage.matchAtom atom = some (.ok (some e)) ∧
      e.packageKey = atom.key := by
  have hrun : (run step init orderedSteps).map matchedKeys =
      some [("a/xssk".toList, "a/xssk".toList)] := by decide +kernel
  obtain ⟨s, hs, hkeys⟩ := Option.map_eq_some_iff.mp hrun
  obtain ⟨atom, hatom, e, he, -⟩ := exists_of_matchedKeys (s := s) 
    (by rw [hkeys]; exact List.mem_singleton.mpr rfl)
  exact ⟨s, hs, atom, hatom, e, he, matchAtom_key (Reaches.refl.run orderedSteps_ok hs) hatom he⟩

/-- An atom made before its package, then a package of the same hash. -/
def collidingSteps : List SessionStep :=
  [.newAtom "a/mdhf".toList plain, .newPackage "a/xssk".toList, .addEbuild 1 xsskEbuild false,
    .addPackage 1]

theorem colliding_atom_matches_other :
    ¬ ∀ s, Reaches step (fun _ _ => True) init s → ∀ atom ∈ s.atoms, ∀ e,
      s.portage.matchAtom atom = some (.ok (some e)) → e.packageKey = atom.key := by
  intro hall
  have hrun : (run step init collidingSteps).map matchedKeys =
      some [("a/mdhf".toList, "a/xssk".toList)] := by decide +kernel
  obtain ⟨s, hs, hkeys⟩ := Option.map_eq_some_iff.mp hrun
  obtain ⟨atom, hatom, e, he, hk, hk'⟩ := exists_of_matchedKeys (s := s) 
    (by rw [hkeys]; exact List.mem_singleton.mpr rfl)
  have heq := hall s (Reaches.refl.run (allOk_true _ _) hs) atom hatom e he
  rw [hk, hk'] at heq
  exact absurd heq (by decide)

end Session

end AutoGentoo
