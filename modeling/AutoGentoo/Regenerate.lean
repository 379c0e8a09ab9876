import AutoGentoo.Emerge

/-! The resolution of the dependencies of a selected ebuild: `resolve_single`,
`resolve_all`, the hooks on its flags, and `regenerate`. -/

namespace AutoGentoo

/-- The member `default` of an atom flag is bound to the offset of `option`; the
numbers past `ATOM_DEFAULT_OFF` name no AtomUseDefaultT. -/
def AtomFlag.defaultMember (self : AtomFlag) : Option AtomUseDefault :=
  match self.option with
  | .disable => some .none
  | .enable => some .on
  | .enableIfOn => some .off
  | .disableIfOff | .equal | .opposite => none

/-- What reading and running a hook leaves of it. -/
def Hookable.runHook (flags : UseFlags) (arg : Option Bool) : Hookable → Except PyError Hookable
  | .useSelection useFlag flag targetValue enforcing =>
    if enforcing && arg != some targetValue then
      .error (.requiredUse (.use (some useFlag.name) targetValue))
    else .ok (.useSelection useFlag flag targetValue enforcing)
  | .requiredUse expression =>
    (RequiredUseHook.runHook flags expression).map fun _ => .requiredUse expression
  | .useConditional useflag dependency required _ =>
    if some useflag.state ≠ arg then
      if required then .error (.requiredUse (.use (some useflag.name) useflag.state))
      else .ok (.useConditional useflag dependency required true)
    else .ok (.useConditional useflag dependency required false)

/-- A call that may raise, with the state it is left in. -/
abbrev Resolution (α : Type) := ExceptT Stop (StateM Emerge) α

/-- A call that leaves the state as it was where it raises. -/
def ofCall {α : Type} (c : Call α) : Resolution α := fun self =>
  match c self with
  | .ok (a, self') => (.ok a, self')
  | .error e => (.error e, self)

def raising {α : Type} (r : Except PyError α) : Resolution α := fun self =>
  match r with
  | .ok a => (.ok a, self)
  | .error e => (.error (.raised e), self)

def getSel (sel : Nat) : Resolution SelectedEbuild := fun self =>
  match self.selected[sel]? with
  | some selected => (.ok selected, self)
  | none => (.error (.raised .systemError), self)

def modifySel (sel : Nat) (f : SelectedEbuild → SelectedEbuild) : Resolution Unit := fun self =>
  (.ok (), { self with selected := self.selected.modify sel f })

/-- The flags `has_use` and `get_use` look at. -/
def useFlags (sel : Nat) : Resolution UseFlags := do
  let selected ← getSel sel
  let self ← get
  return { useflags := selected.useflags, iuse := (self.metadata selected.ebuild).iuse }

def scheduleUse (sel : Nat) (useflag : UseFlag) : Resolution Unit :=
  modifySel sel fun s => { s with flags := s.flags ++ [useflag], isDirty := true }

def addUse (sel : Nat) (name : List Char) (value : Bool) : Resolution Unit :=
  modifySel sel fun s =>
    { s with useflags := Dict.set s.useflags name { name := name, state := value } }

namespace SelectedEbuild

/-- The hooks of a flag, or the global ones. -/
def hooks (self : SelectedEbuild) : Option (List Char) → List Hookable
  | none => self.globalFlagHooks
  | some name => (Dict.get self.useFlagHooks name).getD []

def setHooks (self : SelectedEbuild) (name : Option (List Char)) (hooks : List Hookable) :
    SelectedEbuild :=
  match name with
  | none => { self with globalFlagHooks := hooks }
  | some name => { self with useFlagHooks := Dict.set self.useFlagHooks name hooks }

end SelectedEbuild

/-- Running the hook with this number, which may change it. -/
def runHookAt (sel : Nat) (name : Option (List Char)) (arg : Option Bool) (i : Nat) :
    Resolution Unit := do
  let flags ← useFlags sel
  let selected ← getSel sel
  match (selected.hooks name)[i]? with
  | none => pure ()
  | some hook =>
    let hook ← raising (hook.runHook flags arg)
    modifySel sel fun s => s.setHooks name ((s.hooks name).set i hook)

def runHooks (sel : Nat) (name : Option (List Char)) (arg : Option Bool) : Resolution Unit := do
  let selected ← getSel sel
  (List.range (selected.hooks name).length).forM (runHookAt sel name arg)

/-- The argument of a hook: the state of its flag. -/
def hookArg (sel : Nat) : Option (List Char) → Resolution (Option Bool)
  | none => return none
  | some name => do
    let flags ← useFlags sel
    let current ← raising (flags.getUse (some name))
    return some current.state

def addUseHook (sel : Nat) (useflag : Option UseFlag) (hook : Hookable) : Resolution Unit := do
  let name := useflag.map UseFlag.name
  let selected ← getSel sel
  modifySel sel fun s => s.setHooks name (s.hooks name ++ [hook])
  let arg ← hookArg sel name
  runHookAt sel name arg (selected.hooks name).length

/-- `UseSelection.__init__` -/
def newUseSelection (sel : Nat) (useFlag : UseFlag) (flag : AtomUse) : Resolution Hookable := do
  let state := useFlag.state
  match flag with
  | .enable =>
    scheduleUse sel { name := useFlag.name, state := true }
    return .useSelection useFlag flag true true
  | .disable =>
    scheduleUse sel { name := useFlag.name, state := false }
    return .useSelection useFlag flag false true
  | .disableIfOff => return .useSelection useFlag flag state (!state)
  | .enableIfOn => return .useSelection useFlag flag state state
  | .equal => return .useSelection useFlag flag state true
  | .opposite =>
    scheduleUse sel { name := useFlag.name, state := !state }
    return .useSelection useFlag flag (!state) true

def addUseRequirement (sel : Nat) (name : List Char) (flag : AtomUse) : Resolution Unit := do
  let flags ← useFlags sel
  let use ← raising (flags.getUse (some name))
  let hook ← newUseSelection sel use flag
  addUseHook sel (some use) hook

/-- One turn of the loop of `flush_use`. -/
def flushOne (sel : Nat) (useflag : UseFlag) : Resolution Unit := do
  modifySel sel fun s => { s with flags := s.flags.tail }
  let flags ← useFlags sel
  let current ← raising (flags.getUse (some useflag.name))
  if current.state = useflag.state then pure ()
  else
    modifySel sel fun s => { s with useflags := Dict.set s.useflags useflag.name useflag }
    runHooks sel (some useflag.name) (some useflag.state)
    runHooks sel none none

/-- No hook puts a flag into the queue, so the loop ends with the flags that are
there at first. -/
def flushUse (sel : Nat) : Resolution Unit := do
  let selected ← getSel sel
  selected.flags.forM (flushOne sel)

def addBlock (atom : Atom) : Resolution Unit := fun self =>
  (.ok (), { self with
    blocks := Dict.set self.blocks atom.key ((Dict.get self.blocks atom.key).getD [] ++ [atom]) })

/-- The turn of the loop over `atom.useflags`. -/
def requireUse (sel : Nat) (use : AtomFlag) : Resolution Unit := do
  let flags ← useFlags sel
  if flags.hasUse use.name then addUseRequirement sel use.name use.option
  else
    match use.defaultMember with
    | none => throw (.raised .valueError)
    | some .none => throw (.raised (.keyError (some use.name)))
    | some .on =>
      addUse sel use.name true
      addUseRequirement sel use.name .enable
    | some .off =>
      addUse sel use.name false
      addUseRequirement sel use.name .disable

namespace Emerge

/-- `get_portage().get_use_flag` -/
def getUseFlag (self : Emerge) (id : Nat) : Option UseFlag :=
  match Lut.lutGet self.globals.globalFlags id with
  | 0 => none
  | address + 1 => self.globals.flags[address]?

end Emerge

/-- What `select_atom` does. -/
abbrev Select := Option Nat → Atom → Call (Option Nat)

/-- An atom that is no blocker and has been selected, with its flags required. -/
def resolveAtom (select : Select) (parent : Option Nat) (atom : Atom) : Resolution (Option Generator) := do
  match ← ofCall (select parent atom) with
  | none => if atom.useflags = [] then return none else throw (.raised .attributeError)
  | some sel =>
    atom.useflags.forM (requireUse sel)
    return some { atom := atom, sel := sel }

/-- A use-conditional is compared by its id with `UseOperatorT.ENABLE`, which is 1. -/
def resolveCondition (parent : Nat) (useOperator : UseOperator) (useCondition : Nat)
    (children : DependTree) : Resolution Unit := do
  let self ← get
  if useCondition = 0 then pure ()
  else if useOperator ≠ .enable ∧ useOperator ≠ .disable then throw (.raised .assertionError)
  else
    match self.getUseFlag useCondition with
    | none => throw (.raised .attributeError)
    | some flag =>
      if children = .null then throw (.raised .assertionError)
      else
        let useFlag : UseFlag := { name := flag.name, state := useCondition = 1 }
        addUseHook parent (some useFlag) (.useConditional useFlag children false false)

/-- The fields of the expression come one by one. -/
def resolveSingle (select : Select) (parent : Option Nat) (useOperator : UseOperator)
    (useCondition : Nat) (atom : Option Atom) (children : DependTree) : Resolution (Option Generator) := do
  match atom, parent with
  | some atom, _ =>
    if atom.blocks ≠ .none then
      addBlock atom
      return none
    else resolveAtom select parent atom
  | none, none => throw (.raised (.resolution none))
  | none, some parent =>
    resolveCondition parent useOperator useCondition children
    return none

def yieldTo (append : Generator → Resolution Unit) : Option Generator → Resolution Unit
  | none => pure ()
  | some resolved => append resolved

/-- The list of an expression, with what is done to each value yielded. -/
def resolveAll (select : Select) (parent : Option Nat) (append : Generator → Resolution Unit) :
    DependTree → Resolution Unit
  | .null => pure ()
  | .node useOperator useCondition atom children next => do
    let resolved ← resolveSingle select parent useOperator useCondition atom children
    yieldTo append resolved
    resolveAll select parent append next

namespace Metadata

/-- The expressions in the order of the loop in `regenerate`. -/
def depTypes (self : Metadata) : Fin 4 → DependTree
  | 0 => self.bdepend
  | 1 => self.depend
  | 2 => self.rdepend
  | 3 => self.pdepend

end Metadata

def initializeMetadata (ebuild : Ebuild) : Resolution Unit := fun self =>
  (if (self.cache ebuild.addr).ok then .ok () else .error (.raised .runtimeError),
    self.readMetadata ebuild)

def loadMetadata (ebuild : Ebuild) : Resolution Unit := do
  let self ← get
  if self.metadataInit ebuild then pure () else initializeMetadata ebuild

def hookRequiredUse (sel : Nat) (expression : UseTree) : Resolution Unit :=
  if expression = .null then pure () else addUseHook sel none (.requiredUse expression)

def appendGenerator (sel : Nat) (i : Fin 4) (dep : Generator) : Resolution Unit :=
  modifySel sel fun s => { s with generators := s.generators.append i dep }

/-- The branch of `regenerate` for a dirty object. -/
def refresh (select : Select) (sel : Nat) : Resolution Unit := do
  modifySel sel fun s => { s with generators := .empty }
  let selected ← getSel sel
  loadMetadata selected.ebuild
  flushUse sel
  let self ← get
  let metadata := self.metadata selected.ebuild
  hookRequiredUse sel metadata.requiredUse
  DependencyContainer.indices.forM fun i =>
    resolveAll select (some sel) (appendGenerator sel i) (metadata.depTypes i)
  modifySel sel fun s => { s with isDirty := false }

def refreshIfDirty (select : Select) (sel : Nat) : Resolution Unit := do
  let selected ← getSel sel
  if selected.isDirty then refresh select sel else pure ()

/-- `get_resolved` of the object at an address. -/
def getResolved (regenerate : Nat → Resolution Unit) (sel : Nat) : Resolution Unit := do
  let self ← get
  if sel ∈ self.resolveSession then pure ()
  else
    set { self with resolveSession := sel :: self.resolveSession }
    regenerate sel

/-- The turn of the last loop of `regenerate`. -/
def resolveGenerator (regenerate : Nat → Resolution Unit) (sel : Nat) (p : Fin 4 × Generator) :
    Resolution Unit := do
  getResolved regenerate p.2.sel
  modifySel sel fun s => { s with resolvedDeps := s.resolvedDeps.append p.1 p.2 }

/-- A call with no fuel left stands for one that has not returned yet. -/
def regenerate (select : Select) : Nat → Nat → Resolution Unit
  | 0, _ => throw .diverged
  | fuel + 1, sel => do
    refreshIfDirty select sel
    modifySel sel fun s => { s with resolvedDeps := .empty }
    let selected ← getSel sel
    selected.generators.entries.forM (resolveGenerator (regenerate select fuel) sel)

/-- A call from outside, with the fuel it gets. -/
inductive EmergeCall
  | addBlock (atom : Atom)
  | selectAtom (parent : Option Nat) (atom : Atom)
  | changeWithinSlot (sel : Nat) (atom : Atom)
  | regenerate (fuel sel : Nat)
  | getResolved (fuel sel : Nat)
  deriving DecidableEq, Repr

namespace EmergeCall

def perform (loop : ForLoop) : EmergeCall → Resolution Unit
  | addBlock atom => AutoGentoo.addBlock atom
  | selectAtom parent atom => do
    let _ ← ofCall (selectAtomOver loop parent atom)
    return ()
  | changeWithinSlot sel atom => do
    let _ ← ofCall (changeWithinSlotOver loop sel atom)
    return ()
  | regenerate fuel sel => AutoGentoo.regenerate (selectAtomOver loop) fuel sel
  | getResolved fuel sel => AutoGentoo.getResolved (AutoGentoo.regenerate (selectAtomOver loop) fuel) sel

/-- The state after a call, also one that raises. -/
def step (loop : ForLoop) (s : Emerge) (call : EmergeCall) : Emerge := (call.perform loop s).2

end EmergeCall

end AutoGentoo
