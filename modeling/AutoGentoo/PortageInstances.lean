import AutoGentoo.PortageIds

/-! Two Portage objects, one of them the `global_portage` that `atom_init` and
`get_package` look into. -/

namespace AutoGentoo

open Lut GuardedRun Session

/-- `initialize_file` where `atom_init` looks into another table than the object's own. -/
def Portage.initializeFileIn (self : Portage) (globalPackages : Option Lut) (file : RepoFile) :
    Option (Except PortageError Portage) := do
  match ← ebuildInit (globalPackages.getD self.packages) (self.made + 1) file with
  | .error e => return .error e
  | .ok (ebuild, flags) =>
    match ← packageFor { self with made := self.made + 1 } ebuild flags with
    | .error e => return .error e
    | .ok (self, address) =>
      match ← self.addEbuildAt address ebuild false with
      | .ok self => return .ok self
      | .error _ => return .ok self

def Portage.initializeRepositoryIn (self : Portage) (globalPackages : Option Lut) :
    List RepoFile → Option Portage
  | [] => some self
  | file :: files => do
    match ← self.initializeFileIn globalPackages file with
    | .ok self => initializeRepositoryIn self globalPackages files
    | .error _ => return self

inductive Instance
  | p | q
  deriving DecidableEq, Repr

/-- Each object with the packages it has been given or has made. -/
structure Instances where
  p : Portage
  q : Portage
  globalPortage : Instance
  deriving DecidableEq, Repr

inductive PortageCall
  | newPackage (key : List Char)
  | addPackage (address : Nat)
  | initializeRepository (files : List RepoFile)
  deriving DecidableEq, Repr

/-- A call on an object, with the table of the global one if that is another. -/
def Portage.callIn (self : Portage) (globalPackages : Option Lut) : PortageCall → Option Portage
  | .newPackage key => (self.newPackage key 0).map Prod.fst
  | .addPackage address => self.addPackage address
  | .initializeRepository files => self.initializeRepositoryIn globalPackages files

/-- A call on the global object. -/
def Portage.call (self : Portage) : PortageCall → Option Portage
  | .newPackage key => (self.newPackage key 0).map Prod.fst
  | .addPackage address => self.addPackage address
  | .initializeRepository files => self.initializeRepository files

namespace Instances

/-- Two new objects, one of them passed to `cportage.init`. -/
def init (globalPortage : Instance) : Instances where
  p := Portage.init
  q := Portage.init
  globalPortage := globalPortage

def portage (self : Instances) : Instance → Portage
  | .p => self.p
  | .q => self.q

def set (self : Instances) (portage : Portage) : Instance → Instances
  | .p => { self with p := portage }
  | .q => { self with q := portage }

def globalPackages (self : Instances) : Lut := (self.portage self.globalPortage).packages

def step (self : Instances) (event : Instance × PortageCall) : Option Instances :=
  let other := if self.globalPortage = event.1 then none else some self.globalPackages
  ((self.portage event.1).callIn other event.2).map fun portage => self.set portage event.1

/-- `get_package`, on whichever object: the package and the object it belongs to. -/
def getPackage (self : Instances) (id : Nat) : Option (Instance × Nat) :=
  match lutGet self.globalPackages id with
  | 0 => none
  | address => some (self.globalPortage, address)

/-- The package an object has under an id. -/
def ownPackage (self : Instances) (i : Instance) (id : Nat) : Option (Instance × Nat) :=
  match lutGet (self.portage i).packages id with
  | 0 => none
  | address => some (i, address)

@[simp] theorem portage_set (self : Instances) (portage : Portage) (i : Instance) :
    (self.set portage i).portage i = portage := by
  cases i <;> rfl

theorem portage_set_ne (self : Instances) (portage : Portage) {i j : Instance} (h : i ≠ j) :
    (self.set portage j).portage i = self.portage i := by
  cases i <;> cases j
  · exact absurd rfl h
  · rfl
  · rfl
  · exact absurd rfl h

@[simp] theorem globalPortage_set (self : Instances) (portage : Portage) (i : Instance) :
    (self.set portage i).globalPortage = self.globalPortage := by
  cases i <;> rfl

end Instances

/-- The other table gives the key of each file the id and the flag the object's own
table gives it. -/
def FilesAgree (globalPackages : Lut) : Portage → List RepoFile → Prop
  | _, [] => True
  | p, file :: files =>
    lutGetId globalPackages (fileKey p file) = lutGetId p.packages (fileKey p file) ∧
      ∀ p', p.initializeFile file = some (.ok p') → FilesAgree globalPackages p' files

instance FilesAgree.decidable (globalPackages : Lut) :
    (p : Portage) → (files : List RepoFile) → Decidable (FilesAgree globalPackages p files)
  | _, [] => isTrue trivial
  | p, file :: files =>
    have : ∀ p', Decidable (FilesAgree globalPackages p' files) := fun p' =>
      FilesAgree.decidable globalPackages p' files
    inferInstanceAs (Decidable (lutGetId globalPackages (fileKey p file) = lutGetId p.packages (fileKey p file) ∧
      ∀ p', p.initializeFile file = some (.ok p') → FilesAgree globalPackages p' files))

/-- The table is only asked for the key of the atom. -/
theorem atomInit_congr {lut lut' : Lut} {input : List Char}
    (h : ∀ atom, atomInit lut input = .ok atom → lutGetId lut' atom.key = lutGetId lut atom.key) :
    atomInit lut' input = atomInit lut input := by
  rw [atomInit_eq] at h
  rw [atomInit_eq, atomInit_eq]
  cases hfields : atomFields input with
  | none => rfl
  | some atom =>
    simp only [hfields] at h ⊢
    cases hmade : (atom.withId (lutGetId lut atom.key)).hashed with
    | error e =>
      obtain ⟨rfl, hnull⟩ := Atom.hashed_error hmade
      exact Atom.hashed_nullVersion hnull
    | ok made =>
      have hkey : lutGetId lut' made.key = lutGetId lut made.key := h made hmade
      rw [Atom.hashed_key hmade] at hkey
      have hsame : lutGetId lut' atom.key = lutGetId lut atom.key := hkey
      rw [hsame, hmade]

theorem ebuildInit_congr {p : Portage} {lut : Lut} {addr : Nat} {file : RepoFile}
    (h : lutGetId lut (fileKey p file) = lutGetId p.packages (fileKey p file)) :
    ebuildInit lut addr file = ebuildInit p.packages addr file := by
  have hatom : atomInit lut (file.category ++ '/' :: file.nameAndVersion) =
      atomInit p.packages (file.category ++ '/' :: file.nameAndVersion) := by
    refine atomInit_congr fun atom hatom => ?_
    rw [fileKey, hatom] at h
    exact h
  rw [ebuildInit, ebuildInit, hatom]

theorem Portage.initializeRepositoryIn_none (self : Portage) (files : List RepoFile) :
    self.initializeRepositoryIn none files = self.initializeRepository files := by
  induction files generalizing self with
  | nil => rfl
  | cons file files ih =>
    simp only [initializeRepositoryIn, initializeRepository, ih]
    rfl

theorem Portage.initializeRepositoryIn_agree {self : Portage} {lut : Lut} {files : List RepoFile}
    (h : FilesAgree lut self files) :
    self.initializeRepositoryIn (some lut) files = self.initializeRepository files := by
  induction files generalizing self with
  | nil => rfl
  | cons file files ih =>
    have hfile : self.initializeFileIn (some lut) file = self.initializeFile file := by
      rewrite [initializeFileIn, initializeFile, Option.getD_some, ebuildInit_congr h.1]
      rfl
    rw [initializeRepositoryIn, initializeRepository, hfile]
    cases hread : self.initializeFile file with
    | none => rfl
    | some r =>
      cases r with
      | error e => rfl
      | ok p => exact ih (h.2 p hread)

namespace Instances

/-- What a call on an object must not meet: too many keys of one hash, and, where
another object is the global one, a file that it answers differently for. -/
def CallOk (self : Instances) (i : Instance) : PortageCall → Prop
  | .newPackage _ => True
  | .addPackage address =>
    ∀ pkg, (self.portage i).deref address = some pkg → KeyOk (self.portage i) [] pkg.key
  | .initializeRepository files =>
    FilesOk [] (self.portage i) files ∧
      (self.globalPortage = i ∨ FilesAgree self.globalPackages (self.portage i) files)

instance CallOk.decidable (self : Instances) (i : Instance) :
    (call : PortageCall) → Decidable (self.CallOk i call)
  | .newPackage _ => isTrue trivial
  | .addPackage address =>
    inferInstanceAs (Decidable (∀ pkg ∈ (self.portage i).deref address, KeyOk (self.portage i) [] pkg.key))
  | .initializeRepository files =>
    inferInstanceAs (Decidable (FilesOk [] (self.portage i) files ∧
      (self.globalPortage = i ∨ FilesAgree self.globalPackages (self.portage i) files)))

/-- Only the calls on the object itself are looked at. -/
def StepOk (i : Instance) (self : Instances) (event : Instance × PortageCall) : Prop :=
  event.1 = i → self.CallOk i event.2

instance StepOk.decidable (i : Instance) (self : Instances) (event : Instance × PortageCall) :
    Decidable (StepOk i self event) :=
  inferInstanceAs (Decidable (_ → _))

def ownCalls (i : Instance) (events : List (Instance × PortageCall)) : List PortageCall :=
  (events.filter (·.1 = i)).map Prod.snd

theorem callIn_eq {self : Instances} {i : Instance} {call : PortageCall} (h : self.CallOk i call) :
    (self.portage i).callIn (if self.globalPortage = i then none else some self.globalPackages) call =
      (self.portage i).call call := by
  cases call with
  | newPackage key => rfl
  | addPackage address => rfl
  | initializeRepository files =>
    split_ifs with hglobal
    · exact Portage.initializeRepositoryIn_none _ files
    · exact Portage.initializeRepositoryIn_agree (h.2.resolve_left hglobal)

/-- A call leaves the other object alone, and a call that meets the condition is the
object's own. -/
theorem step_portage {self next : Instances} {i : Instance} {event : Instance × PortageCall}
    (hok : StepOk i self event) (h : self.step event = some next) :
    (if event.1 = i then (self.portage i).call event.2 else some (self.portage i)) =
      some (next.portage i) := by
  obtain ⟨portage, hportage, rfl⟩ := Option.map_eq_some_iff.mp h
  split_ifs with he
  · rw [he] at hportage
    rw [← callIn_eq (hok he), hportage, he, portage_set]
  · rw [portage_set_ne _ _ (Ne.symm he)]

theorem run_ownCalls {i : Instance} {events : List (Instance × PortageCall)} {self final : Instances}
    (hok : AllOk step (StepOk i) self events) (h : run step self events = some final) :
    run Portage.call (self.portage i) (ownCalls i events) = some (final.portage i) := by
  induction events generalizing self with
  | nil =>
    obtain rfl := Option.some.inj h
    rfl
  | cons event events ih =>
    obtain ⟨next, hnext, hrest⟩ := Option.bind_eq_some_iff.mp h
    have hown := step_portage hok.1 hnext
    have htail := ih (hok.2 next hnext) hrest
    by_cases he : event.1 = i
    · rw [if_pos he] at hown
      rw [ownCalls, List.filter_cons_of_pos (by simp [he]), List.map_cons, run, hown, Option.bind_some]
      exact htail
    · rw [if_neg he, Option.some.injEq] at hown
      rw [ownCalls, List.filter_cons_of_neg (by simp [he]), hown]
      exact htail

theorem inv_call {self : Instances} {i : Instance} {call : PortageCall} {portage : Portage}
    (hi : Inv (self.portage i) []) (hok : self.CallOk i call)
    (h : (self.portage i).call call = some portage) : Inv portage [] := by
  cases call with
  | newPackage key =>
    obtain ⟨r, hr, rfl⟩ := Option.map_eq_some_iff.mp h
    exact (hi.newPackage hr).1
  | addPackage address => exact hi.addPackage hok h
  | initializeRepository files => exact hi.initializeRepository hok.1 h

theorem inv_run {i globalPortage : Instance} {self : Instances}
    (h : Reaches step (StepOk i) (init globalPortage) self) :
    Inv (self.portage i) [] ∧ self.globalPortage = globalPortage := by
  apply h.invariant fun s => Inv (s.portage i) [] ∧ s.globalPortage = globalPortage
  · constructor
    · cases i <;> exact inv_init
    · rfl
  · rintro s event t ⟨hi, hglobal⟩ hok hstep
    have hown := step_portage hok hstep
    constructor
    · by_cases he : event.1 = i
      · rw [if_pos he] at hown
        exact inv_call hi (hok he) hown
      · rw [if_neg he, Option.some.injEq] at hown
        exact hown ▸ hi
    · obtain ⟨portage, -, rfl⟩ := Option.map_eq_some_iff.mp hstep
      rw [globalPortage_set, hglobal]

theorem getPackage_eq {self : Instances} {i : Instance} {id : Nat}
    (h : self.globalPortage = i ∨
      lutGet self.globalPackages id = 0 ∧ lutGet (self.portage i).packages id = 0) :
    self.getPackage id = self.ownPackage i id := by
  rcases h with rfl | ⟨hglobal, hown⟩
  · rfl
  · simp only [getPackage, ownPackage, hglobal, hown]

theorem lutGet_addPackage {p p' : Portage} (hi : Inv p []) {address : Nat} {pkg : Package}
    (hpkg : p.deref address = some pkg) (h : p.addPackage address = some p') :
    ∃ made, p'.deref address = some made ∧ made.key = pkg.key ∧
      lutGet p'.packages made.packageId = address := by
  have hpython : lutFlagPython ∈ callerFlags := by decide
  obtain ⟨lut, hinsert, hinserted⟩ := lutInsert_spec hi.valid
    { key := pkg.key, data := address, flags := lutFlagPython } (fun _ => hi.few _) hpython
  simp only [Portage.addPackage, hpkg, hinsert, Option.bind_eq_bind, Option.bind_some, Option.pure_def,
    Option.some.injEq] at h
  have hcontent : content lut pkg.key = some ((lutGetId p.packages pkg.key).1, address) := by
    rw [hinserted.content_eq, Function.update_self]
  obtain ⟨-, hget, -⟩ := hinserted.valid.found hcontent
  have hderef : ({ p with packages := lut } : Portage).deref address = some pkg := hpkg
  refine ⟨{ pkg with packageId := (lutGetId p.packages pkg.key).1 }, ?_, rfl, ?_⟩
  · rw [← h, deref_store hderef, if_pos rfl]
  · rw [← h]
    exact hget

/-- After a run in which the calls on `i` meet the condition, `i` is what its own calls
make of a new object that is the global one; `get_package` finds what is its own; and
a package added is found under its id. -/
theorem portage_alone {i globalPortage : Instance} {events : List (Instance × PortageCall)}
    {self : Instances} (hok : AllOk step (StepOk i) (init globalPortage) events)
    (h : run step (init globalPortage) events = some self) :
    run Portage.call Portage.init (ownCalls i events) = some (self.portage i) ∧
      (∀ id, (globalPortage = i ∨
          lutGet self.globalPackages id = 0 ∧ lutGet (self.portage i).packages id = 0) →
        self.getPackage id = self.ownPackage i id) ∧
      ∀ address pkg next, (self.portage i).deref address = some pkg → globalPortage = i →
        self.step (i, .addPackage address) = some next →
          ∃ made, (next.portage i).deref address = some made ∧ made.key = pkg.key ∧
            next.getPackage made.packageId = some (i, address) := by
  obtain ⟨hi, hglobal⟩ := inv_run (Reaches.refl.run hok h)
  refine ⟨?_, fun id hid => getPackage_eq (hglobal.symm ▸ hid), ?_⟩
  · have hown := run_ownCalls hok h
    cases i <;> exact hown
  · rintro address pkg next hpkg rfl hstep
    obtain ⟨portage, hportage, rfl⟩ := Option.map_eq_some_iff.mp hstep
    obtain ⟨made, hmade, hmadekey, hget⟩ := lutGet_addPackage hi hpkg hportage
    rw [portage_set]
    refine ⟨made, hmade, hmadekey, ?_⟩
    have hne : address ≠ 0 := by
      rintro rfl
      exact absurd hpkg (by simp [Portage.deref])
    obtain ⟨n, rfl⟩ := Nat.exists_eq_succ_of_ne_zero hne
    rw [getPackage, globalPackages, globalPortage_set, hglobal, portage_set, hget]
    rfl

/-- `a/b-1.0` and `a/b-1.1` -/
def twoFiles : List RepoFile :=
  let file (version : String) : RepoFile :=
    { category := ['a'], nameAndVersion := ('b' :: '-' :: version.toList), ebuildFound := true,
      cacheFile := some version.toList }
  [file "1.0", file "1.1"]

/-- Both objects have a package `a/b`, and `p` has a package `a/c` to add. -/
def addBoth : List (Instance × PortageCall) :=
  [(.q, .newPackage "a/b".toList), (.q, .addPackage 1), (.p, .initializeRepository twoFiles),
    (.p, .newPackage "a/c".toList)]

/-- `p` reads `a/b-1.0` while the table of `q` has not got the key. -/
def readBefore : List (Instance × PortageCall) :=
  [(.q, .newPackage "a/c".toList), (.q, .addPackage 1), (.p, .initializeRepository (twoFiles.take 1)),
    (.q, .initializeRepository twoFiles), (.p, .newPackage "a/c".toList), (.p, .addPackage 2)]

/-- `p` is the global object in the first run, and `q` in the second. -/
theorem portage_alone_both :
    (∃ self next, run step (init .p) addBoth = some self ∧ self.step (.p, .addPackage 2) = some next ∧
      run Portage.call Portage.init (ownCalls .p addBoth) = some self.p ∧
      ∃ made, next.p.deref 2 = some made ∧ made.key = "a/c".toList ∧
        next.getPackage made.packageId = some (.p, 2)) ∧
    ∃ self, run step (init .q) readBefore = some self ∧
      run Portage.call Portage.init (ownCalls .p readBefore) = some self.p ∧
      self.getPackage 7 = self.ownPackage .p 7 := by
  constructor
  · have hok : AllOk step (StepOk .p) (init .p) addBoth := by decide +kernel
    have hadded : ((run step (init .p) addBoth).bind fun self => (self.step (.p, .addPackage 2)).bind fun _ =>
        (self.p.deref 2).map Package.key) = some "a/c".toList := by
      decide +kernel
    obtain ⟨self, hself, hstep⟩ := Option.bind_eq_some_iff.mp hadded
    obtain ⟨next, hnext, hderef⟩ := Option.bind_eq_some_iff.mp hstep
    obtain ⟨pkg, hpkg, hkey⟩ := Option.map_eq_some_iff.mp hderef
    obtain ⟨hown, -, hfound⟩ := portage_alone hok hself
    obtain ⟨made, hmade, hmadeKey, hget⟩ := hfound 2 pkg next hpkg rfl hnext
    exact ⟨self, next, hself, hnext, hown, made, hmade, hmadeKey.trans hkey, hget⟩
  · have hok : AllOk step (StepOk .p) (init .q) readBefore := by decide +kernel
    have hnone : (run step (init .q) readBefore).any (fun self =>
        lutGet self.globalPackages 7 = 0 ∧ lutGet self.p.packages 7 = 0) = true := by
      decide +kernel
    obtain ⟨self, hself, hids⟩ := (Option.any_eq_true _ _).mp hnone
    obtain ⟨hown, hget, -⟩ := portage_alone hok hself
    exact ⟨self, hself, hown, hget 7 (.inr (of_decide_eq_true hids))⟩

/-- Where `q` is the global object: a package of `p` is not found, and each file of `p`
has a package of its own. -/
theorem portage_not_alone :
    (∃ self, run step (init .q) [(.p, .newPackage "a/b".toList), (.p, .addPackage 1)] = some self ∧
      ∃ made, self.p.deref 1 = some made ∧ self.ownPackage .p made.packageId = some (.p, 1) ∧
        self.getPackage made.packageId = none) ∧
      (∃ self, run step (init .q) [(.p, .initializeRepository twoFiles)] = some self ∧
        self.p.objects.map Package.key = ["a/b".toList, "a/b".toList]) ∧
      (Portage.init.call (.initializeRepository twoFiles)).map (fun p => p.objects.map Package.key) =
        some ["a/b".toList] := by
  refine ⟨?_, ?_, by decide +kernel⟩
  · have hadded : (run step (init .q) [(.p, .newPackage "a/b".toList), (.p, .addPackage 1)]).bind
        (fun self => (self.p.deref 1).map fun made =>
          (self.ownPackage .p made.packageId, self.getPackage made.packageId)) =
            some (some (.p, 1), none) := by
      decide +kernel
    obtain ⟨self, hself, hmade⟩ := Option.bind_eq_some_iff.mp hadded
    obtain ⟨made, hmade, hfound⟩ := Option.map_eq_some_iff.mp hmade
    obtain ⟨hown, hget⟩ := Prod.mk.inj hfound
    exact ⟨self, hself, made, hmade, hown, hget⟩
  · have hkeys : (run step (init .q) [(.p, .initializeRepository twoFiles)]).map
        (fun self => self.p.objects.map Package.key) = some ["a/b".toList, "a/b".toList] := by
      decide +kernel
    exact Option.map_eq_some_iff.mp hkeys

end Instances

end AutoGentoo
