import AutoGentoo.Dict
import AutoGentoo.RequiredUse

/-! The check of the flags of a selected ebuild against its REQUIRED_USE. -/

namespace AutoGentoo

/-- `SuggestionExpression.Operator` -/
inductive SuggestionOperator
  | leastOne | exactOne | mostOne | and
  deriving DecidableEq, Repr

/-- `UseSuggestion` and `SuggestionExpression` -/
inductive Suggestion
  | use (useName : Option (List Char)) (value : Bool)
  | expression (operator : SuggestionOperator) (suggestions : List Suggestion)
  deriving Repr

/-- The exceptions of the resolver. `keyError none` is a lookup of the name None,
`resolution none` a conditional without a parent. -/
inductive PyError
  | keyError (name : Option (List Char))
  | typeError
  | attributeError
  | valueError
  | assertionError
  | systemError
  | runtimeError
  | notImplemented
  | requiredUse (suggestion : Suggestion)
  | resolution (key : Option (List Char))
  deriving Repr

/-- The flags of a selected ebuild: those changed since, and IUSE. -/
structure UseFlags where
  useflags : Dict (List Char) UseFlag
  iuse : Dict (List Char) UseFlag
  deriving DecidableEq, Repr

namespace UseFlags

def hasUse (self : UseFlags) (name : List Char) : Bool :=
  Dict.has self.useflags name || Dict.has self.iuse name

def getUse (self : UseFlags) : Option (List Char) → Except PyError UseFlag
  | none => .error (.keyError none)
  | some name =>
    match Dict.get self.useflags name with
    | some flag => .ok flag
    | none =>
      match Dict.get self.iuse name with
      | some flag => .ok flag
      | none => .error (.keyError (some name))

end UseFlags

/-- The variables of `evaluate_required_use`. -/
structure Evaluation where
  suggestions : List Suggestion
  numTrue : Nat
  total : Nat
  deriving Repr

namespace Evaluation

def start : Evaluation := { suggestions := [], numTrue := 0, total := 0 }

def count (self : Evaluation) : Evaluation := { self with total := self.total + 1 }

def pass (self : Evaluation) : Evaluation := { self with numTrue := self.numTrue + 1 }

def suggest (self : Evaluation) (s : Suggestion) : Evaluation :=
  { self with suggestions := self.suggestions ++ [s] }

/-- What an operator makes of the evaluation of its children. -/
def judge (self child : Evaluation) (ok : Bool) (operator : SuggestionOperator) : Evaluation :=
  if ok then self.pass else self.suggest (.expression operator child.suggestions)

/-- The case of a flag or a conditional; the third branch of the source repeats
the test of the second one. -/
def judgeFlag (self : Evaluation) (name : Option (List Char)) (state target literal : Bool)
    (child : Except PyError Evaluation) : Except PyError Evaluation :=
  if literal && state == target then .ok self.pass
  else if state == target then
    child.map fun c =>
      if c.numTrue = c.total then self.pass
      else self.suggest (.expression .leastOne
        [.use name (!state), .expression .and c.suggestions])
  else if !literal && state == target then .ok self.pass
  else .ok (self.suggest (.use name (!state)))

/-- One turn of the loop, for what the children evaluate to. -/
def turn (self : Evaluation) (flags : UseFlags) (name : Option (List Char)) (option : UseOperator)
    (literal : Bool) (child : Except PyError Evaluation) : Except PyError Evaluation :=
  match option with
  | .disable => (flags.getUse name).bind fun flag =>
      self.judgeFlag name flag.state false literal child
  | .enable => (flags.getUse name).bind fun flag =>
      self.judgeFlag name flag.state true literal child
  | .leastOne => child.map fun c => self.judge c (1 ≤ c.numTrue) .leastOne
  | .exactOne => child.map fun c => self.judge c (c.numTrue = 1) .exactOne
  | .mostOne => child.map fun c => self.judge c (c.numTrue ≤ 1) .mostOne

end Evaluation

/-- The loop over a list of expressions; None cannot be iterated. -/
def evaluateRequiredUse (flags : UseFlags) : UseTree → Evaluation → Except PyError Evaluation
  | .null, acc => .ok acc
  | .node name option depend next, acc =>
    let child :=
      if depend.isNull then .error .typeError else evaluateRequiredUse flags depend .start
    (acc.count.turn flags name option depend.isNull child).bind (evaluateRequiredUse flags next)

namespace RequiredUseHook

def runHook (flags : UseFlags) (expression : UseTree) : Except PyError Unit :=
  if expression.isNull then .error .typeError
  else (evaluateRequiredUse flags expression .start).bind fun g =>
    if g.numTrue ≠ g.total then .error (.requiredUse (.expression .and g.suggestions)) else .ok ()

end RequiredUseHook

end AutoGentoo
