import AutoGentoo.LutRefinement

/-! REQUIRED_USE as the actions of `requireduse.y` build it: nodes on a heap,
linked through `next` and `depend`. A failed assertion is `none`. -/

namespace AutoGentoo

/-- `use_operator_t` -/
inductive UseOperator
  | disable | enable | leastOne | exactOne | mostOne
  deriving DecidableEq, Repr

structure UseFlag where
  name : List Char
  state : Bool
  deriving DecidableEq, Repr

/-- A node, with addresses for the pointers. -/
structure RequiredUse where
  name : Option (List Char)
  globalFlag : Nat
  option : UseOperator
  depend : Option Nat
  next : Option Nat
  deriving DecidableEq, Repr

/-- The objects the parser makes, and the table of all flags met so far. -/
structure UseHeap where
  globalFlags : Lut
  flags : List UseFlag
  nodes : List RequiredUse
  deriving DecidableEq, Repr

namespace UseHeap

def init : UseHeap := { globalFlags := Lut.lutNew 256, flags := [], nodes := [] }

/-- The id of a flag, which is added to the table where it is new; the data of
the table are addresses counted from 1. -/
def useGetGlobal (self : UseHeap) : Option (List Char) → Option (UseHeap × Nat)
  | none => some (self, 0)
  | some useflag =>
    let found := Lut.lutGetId self.globalFlags useflag
    if found.2 &&& lutFlagNotFound ≠ 0 then
      (Lut.lutInsertId self.globalFlags useflag (self.flags.length + 1) found.1
        (found.2 ||| lutFlagPython)).map fun lut =>
          ({ self with
            globalFlags := lut
            flags := self.flags ++ [{ name := useflag, state := false }] }, found.1)
    else some (self, found.1)

def useBuildRequiredUse (self : UseHeap) (target : Option (List Char)) (option : UseOperator) :
    Option (UseHeap × Nat) :=
  (self.useGetGlobal target).map fun r =>
    ({ r.1 with
      nodes := r.1.nodes ++ [{
        name := target
        globalFlag := r.2
        option := option
        depend := none
        next := none }] }, r.1.nodes.length)

def setDepend (self : UseHeap) (address target : Nat) : UseHeap :=
  { self with nodes := self.nodes.modify address fun node => { node with depend := some target } }

def setNext (self : UseHeap) (address target : Nat) : UseHeap :=
  { self with nodes := self.nodes.modify address fun node => { node with next := some target } }

end UseHeap

/-- `use_expr` -/
inductive UseExpr
  | not (identifier : List Char)
  | flag (identifier : List Char)
  deriving DecidableEq, Repr

/-- The token USESELECT. -/
inductive UseSelect
  | mostOne | leastOne | exactOne
  deriving DecidableEq, Repr

inductive DependExprSel
  | useExpr (e : UseExpr)
  | useSelect (op : UseSelect)
  deriving DecidableEq, Repr

def UseExpr.target : UseExpr → List Char
  | not identifier => identifier
  | flag identifier => identifier

def UseExpr.operator : UseExpr → UseOperator
  | not _ => .disable
  | flag _ => .enable

def UseSelect.operator : UseSelect → UseOperator
  | mostOne => .mostOne
  | leastOne => .leastOne
  | exactOne => .exactOne

def DependExprSel.target : DependExprSel → Option (List Char)
  | useExpr e => some e.target
  | useSelect _ => none

def DependExprSel.operator : DependExprSel → UseOperator
  | useExpr e => e.operator
  | useSelect op => op.operator

/-! The derivations of the grammar, by the rule at their root. -/

mutual

inductive RequiredUseExpr
  | single (s : RequiredUseSingle)
  | cons (s : RequiredUseSingle) (rest : RequiredUseExpr)

inductive RequiredUseSingle
  | useExpr (e : UseExpr)
  | depend (sel : DependExprSel) (e : RequiredUseExpr)
  | group (e : RequiredUseExpr)

end

namespace UseHeap

mutual

/-- The reductions below a `required_use_expr`, with the address that is its value. -/
def requiredUseExpr (self : UseHeap) : RequiredUseExpr → Option (UseHeap × Nat)
  | .single s => requiredUseSingle self s
  | .cons s rest =>
    (requiredUseSingle self s).bind fun first =>
      (requiredUseExpr first.1 rest).map fun second =>
        (second.1.setNext first.2 second.2, first.2)

def requiredUseSingle (self : UseHeap) : RequiredUseSingle → Option (UseHeap × Nat)
  | .useExpr e => self.useBuildRequiredUse (some e.target) e.operator
  | .depend sel e =>
    (requiredUseExpr self e).bind fun third =>
      (third.1.useBuildRequiredUse sel.target sel.operator).map fun out =>
        (out.1.setDepend out.2 third.2, out.2)
  | .group e => requiredUseExpr self e

end

/-- An empty text has the value NULL. -/
def programRequiredUse (self : UseHeap) : Option RequiredUseExpr → Option (UseHeap × Option Nat)
  | none => some (self, none)
  | some e => (self.requiredUseExpr e).map fun r => (r.1, some r.2)

end UseHeap

/-- What a pointer leads to, through `depend` and `next`. -/
inductive UseTree
  | null
  | node (name : Option (List Char)) (option : UseOperator) (depend next : UseTree)
  deriving DecidableEq, Repr

/-- The walk from a pointer; `none` where it dangles or takes more steps. -/
def walk (nodes : List RequiredUse) : Nat → Option Nat → Option UseTree
  | _, none => some .null
  | 0, some _ => none
  | fuel + 1, some address =>
    nodes[address]?.bind fun node =>
      (walk nodes fuel node.depend).bind fun depend =>
        (walk nodes fuel node.next).map fun next => .node node.name node.option depend next

namespace UseTree

def isNull : UseTree → Bool
  | null => true
  | node .. => false

def append : UseTree → UseTree → UseTree
  | null, other => other
  | node name option depend next, other => node name option depend (next.append other)

/-- The assignment to `next`, on the tree. -/
def setNext : UseTree → UseTree → UseTree
  | null, _ => null
  | node name option depend _, other => node name option depend other

/-- The number of nodes on the list. -/
def width : UseTree → Nat
  | null => 0
  | node _ _ _ next => next.width + 1

def size : UseTree → Nat
  | null => 0
  | node _ _ depend next => depend.size + next.size + 1

end UseTree

mutual

/-- The nodes the text calls for: one for each flag, conditional and operator,
none for plain parentheses. -/
def RequiredUseExpr.tree : RequiredUseExpr → UseTree
  | .single s => s.tree
  | .cons s rest => s.tree.append rest.tree

def RequiredUseSingle.tree : RequiredUseSingle → UseTree
  | .useExpr e => .node (some e.target) e.operator .null .null
  | .depend sel e => .node sel.target sel.operator e.tree .null
  | .group e => e.tree

end

mutual

/-- Only the last item of a list is a plain group of several nodes. -/
def RequiredUseExpr.GroupsLast : RequiredUseExpr → Prop
  | .single s => s.GroupsLast
  | .cons s rest => s.tree.width = 1 ∧ s.GroupsLast ∧ rest.GroupsLast

def RequiredUseSingle.GroupsLast : RequiredUseSingle → Prop
  | .useExpr _ => True
  | .depend _ e => e.GroupsLast
  | .group e => e.GroupsLast

end

/-- The nodes of a whole text, where an empty one is NULL. -/
def programTree (p : Option RequiredUseExpr) : UseTree :=
  (p.map RequiredUseExpr.tree).getD .null

def ProgramGroupsLast (p : Option RequiredUseExpr) : Prop := ∀ e ∈ p, e.GroupsLast

end AutoGentoo
