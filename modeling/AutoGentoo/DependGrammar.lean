import AutoGentoo.Dependency
import AutoGentoo.LutNames

/-! The rules of `depend.y` and their actions. Of the tokens only USESELECT is
taken with its text. -/

namespace AutoGentoo

/-- A flag in a text matched by `use_select`. -/
def SelectName : Type :=
  { name : List Char // name ≠ [] ∧ ∀ c ∈ name, (c.isAlphanum || c == '_' || c == '-') = true }

/-- The texts behind USESELECT. -/
inductive SelectText (ν : Type)
  | flag (negated : Bool) (name : ν)
  | mostOne | leastOne | exactOne
  deriving DecidableEq, Repr

structure DependExprSelect where
  target : Option (List Char)
  operator : UseOperator
  deriving DecidableEq, Repr

/-- The action of `use_select`; `len` stays that of the whole text. -/
def useSelect (yytext : List Char) : DependExprSelect :=
  let len := yytext.length
  if yytext.head? = some '!' then
    { target := some ((yytext.drop 1).take (len - 1)), operator := .disable }
  else { target := some (yytext.take (len - 1)), operator := .enable }

def flagText (negated : Bool) (name : List Char) : List Char :=
  (if negated then ['!'] else []) ++ name ++ ['?']

/-- The value of the token. -/
def SelectText.lex : SelectText SelectName → DependExprSelect
  | flag negated name => useSelect (flagText negated name.val)
  | mostOne => { target := none, operator := .mostOne }
  | leastOne => { target := none, operator := .leastOne }
  | exactOne => { target := none, operator := .exactOne }

/-- The value of the token SLOT. -/
structure SlotToken where
  name : Option (List Char)
  subName : Option (List Char)
  slotOpts : AtomSlot
  deriving DecidableEq, Repr

/-- What stands before ATOM in `atom_version`. -/
inductive VersionSign
  | greaterEqual | lessEqual | equal | greater | tilde | less | nothing
  deriving DecidableEq, Repr

/-- What stands before `atom_version` in `atom_block`. -/
inductive BlockSign
  | twice | once | nothing
  deriving DecidableEq, Repr

/-- An `atom`, by what stands in each of the rules. -/
structure AtomExpr where
  bangs : BlockSign
  sign : VersionSign
  token : Atom
  slot : Option SlotToken
  repository : Option (List Char)
  flags : Option (List AtomFlag)
  deriving DecidableEq, Repr

def atomVersion (sign : VersionSign) (atom : Atom) : Atom :=
  match sign with
  | .greaterEqual => { atom with range := .ge }
  | .lessEqual => { atom with range := .le }
  | .equal => { atom with range := .e }
  | .greater => { atom with range := .g }
  | .tilde => { atom with range := .rev }
  | .less => { atom with range := .l }
  | .nothing => { atom with range := .all }

def atomBlock (bangs : BlockSign) (atom : Atom) : Atom :=
  match bangs with
  | .twice => { atom with blocks := .hard }
  | .once => { atom with blocks := .soft }
  | .nothing => { atom with blocks := .none }

def atomSlot (slot : Option SlotToken) (atom : Atom) : Atom :=
  match slot with
  | some s => { atom with slot := s.name, subSlot := s.subName, slotOpts := s.slotOpts }
  | none => { atom with slot := none, subSlot := none, slotOpts := .ignore }

def atomRepo (repository : Option (List Char)) (atom : Atom) : Atom :=
  match repository with
  | some r => { atom with repository := some r }
  | none => { atom with repository := none }

def atomFlags (flags : Option (List AtomFlag)) (atom : Atom) : Atom :=
  match flags with
  | some l => { atom with useflags := l }
  | none => { atom with useflags := [] }

/-- The reductions from `atom_version` up to `atom`. -/
def AtomExpr.reduce (e : AtomExpr) : Atom :=
  atomFlags e.flags (atomRepo e.repository (atomSlot e.slot
    (atomBlock e.bangs (atomVersion e.sign e.token))))

/-! The derivations, with `ν` for the names of flags and `α` for atoms. -/

mutual

inductive DependExpr (ν α : Type)
  | single (s : DependExprSingle ν α)
  | cons (s : DependExprSingle ν α) (rest : DependExpr ν α)

inductive DependExprSingle (ν α : Type)
  | atom (a : α)
  | select (sel : SelectText ν) (e : DependExpr ν α)
  | group (e : DependExpr ν α)

end

/-- `PyDependency_new` leaves 0 and NULL in every field. -/
def dependencyBuildAtom (atom : Atom) : DependTree := .node .disable 0 (some atom) .null .null

def dependencyBuildGrouping (children : DependTree) : DependTree :=
  .node .disable 0 none children .null

def DependTree.setNext : DependTree → DependTree → DependTree
  | null, _ => null
  | node useOperator useCondition atom children _, next =>
    node useOperator useCondition atom children next

namespace UseHeap

def dependencyBuildUse (self : UseHeap) (useFlag : Option (List Char)) (type : UseOperator)
    (children : DependTree) : Option (UseHeap × DependTree) :=
  match useFlag with
  | some useflag =>
    (self.useGetGlobal (some useflag)).map fun r => (r.1, .node type r.2 none children .null)
  | none => some (self, .node type 0 none children .null)

mutual

/-- The reductions below a `depend_expr`, with its value. -/
def dependExpr (self : UseHeap) : DependExpr SelectName AtomExpr → Option (UseHeap × DependTree)
  | .single s => dependExprSingle self s
  | .cons s rest =>
    (dependExprSingle self s).bind fun first =>
      (dependExpr first.1 rest).map fun second => (second.1, first.2.setNext second.2)

def dependExprSingle (self : UseHeap) :
    DependExprSingle SelectName AtomExpr → Option (UseHeap × DependTree)
  | .atom a => some (self, dependencyBuildAtom a.reduce)
  | .select sel e =>
    (dependExpr self e).bind fun third =>
      third.1.dependencyBuildUse sel.lex.target sel.lex.operator third.2
  | .group e => (dependExpr self e).map fun second => (second.1, dependencyBuildGrouping second.2)

end

/-- An empty text has the value NULL. -/
def programDepend (self : UseHeap) :
    Option (DependExpr SelectName AtomExpr) → Option (UseHeap × DependTree)
  | none => some (self, .null)
  | some e => self.dependExpr e

/-- Flags met elsewhere. -/
def internAll (self : UseHeap) : List (List Char) → Option UseHeap
  | [] => some self
  | name :: names => (self.useGetGlobal (some name)).bind fun r => r.1.internAll names

end UseHeap

/-! What an expression says, and what is read from a structure. -/

def VersionSign.range : VersionSign → AtomRange
  | greaterEqual => .ge | lessEqual => .le | equal => .e | greater => .g | tilde => .rev
  | less => .l | nothing => .all

def BlockSign.blocks : BlockSign → AtomBlock
  | twice => .hard | once => .soft | nothing => .none

/-- The fields an atom is written with. -/
def AtomExpr.value (e : AtomExpr) : Atom :=
  { e.token with
    range := e.sign.range
    blocks := e.bangs.blocks
    slot := e.slot.bind SlotToken.name
    subSlot := e.slot.bind SlotToken.subName
    slotOpts := (e.slot.map SlotToken.slotOpts).getD .ignore
    repository := e.repository
    useflags := e.flags.getD [] }

def SelectText.value : SelectText SelectName → SelectText (List Char)
  | flag negated name => .flag negated name.val
  | mostOne => .mostOne
  | leastOne => .leastOne
  | exactOne => .exactOne

mutual

def DependExpr.value : DependExpr SelectName AtomExpr → DependExpr (List Char) Atom
  | .single s => .single s.value
  | .cons s rest => .cons s.value rest.value

def DependExprSingle.value : DependExprSingle SelectName AtomExpr → DependExprSingle (List Char) Atom
  | .atom a => .atom a.value
  | .select sel e => .select sel.value e.value
  | .group e => .group e.value

end

def DependTree.isNull : DependTree → Bool
  | null => true
  | node .. => false

/-- What a node without an atom says of its children. -/
def readGroup (flags : Lut) (useOperator : UseOperator) (useCondition : Nat)
    (e : DependExpr (List Char) Atom) : Option (DependExprSingle (List Char) Atom) :=
  if useCondition = 0 then
    match useOperator with
    | .disable => some (.group e)
    | .enable => none
    | .leastOne => some (.select .leastOne e)
    | .exactOne => some (.select .exactOne e)
    | .mostOne => some (.select .mostOne e)
  else
    (Lut.lutGetKey flags useCondition).bind fun name =>
      match useOperator with
      | .disable => some (.select (.flag true name) e)
      | .enable => some (.select (.flag false name) e)
      | _ => none

def readSingle (flags : Lut) (useOperator : UseOperator) (useCondition : Nat) (atom : Option Atom)
    (children : Option (DependExpr (List Char) Atom)) : Option (DependExprSingle (List Char) Atom) :=
  match atom, children with
  | some a, none => some (.atom a)
  | none, some e => readGroup flags useOperator useCondition e
  | _, _ => none

/-- The expression a structure holds; `none` where it holds none. -/
def DependTree.read (flags : Lut) : DependTree → Option (DependExpr (List Char) Atom)
  | null => none
  | node useOperator useCondition atom children next =>
    (readSingle flags useOperator useCondition atom (read flags children)).bind fun s =>
      if next.isNull then some (.single s) else (read flags next).map (.cons s)

def DependTree.readProgram (flags : Lut) (t : DependTree) :
    Option (Option (DependExpr (List Char) Atom)) :=
  if t.isNull then some none else (t.read flags).map some

end AutoGentoo
