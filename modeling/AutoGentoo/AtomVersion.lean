import AutoGentoo.CString

/-! Versions as `atom_version_init` builds them and the three-way comparison
`atom_version_compare`. `none` as a comparison stands for a run that has no
result: a NULL string, a read before the first character or a failed
assertion. -/

namespace AutoGentoo

open CString

inductive AtomPrefix
  | alpha | beta | pre | rc | none | p
  deriving DecidableEq, Repr

/-- The position in `atom_version_pre_t`. -/
def AtomPrefix.val : AtomPrefix → Int
  | alpha => 0 | beta => 1 | pre => 2 | rc => 3 | none => 4 | p => 5

/-- One link of the version chain, `v` being NULL until it is filled. -/
structure VersionNode where
  v : Option (List Char)
  pre : AtomPrefix
  deriving DecidableEq, Repr

/-- The chain starting at the object that carries the full text and the
revision; `next` lists the nodes behind it. -/
structure AtomVersion where
  fullVersion : Option (List Char)
  head : VersionNode
  next : List VersionNode
  revision : Int
  deriving DecidableEq, Repr

def AtomVersion.nodes (a : AtomVersion) : List VersionNode := a.head :: a.next

/-- The table `atom_prefix_links`, which knows the keywords by length only. -/
def atomPrefixLinks : Nat → Option AtomPrefix
  | 5 => some .alpha
  | 4 => some .beta
  | 3 => some .pre
  | 2 => some .rc
  | 0 => some .none
  | 1 => some .p
  | _ => none

def versionNode (buf : List Char) : Option VersionNode :=
  let prefixLen := (strpbrk buf numerals).getD 0
  (atomPrefixLinks prefixLen).map fun kind => { v := some (buf.drop prefixLen), pre := kind }

/-- The `while` loop over the pieces, with whether it reached the end. -/
def versionNodes : List (List Char) → List VersionNode × Bool
  | [] => ([], true)
  | buf :: rest =>
    match versionNode buf with
    | none => ([], false)
    | some node => (node :: (versionNodes rest).1, (versionNodes rest).2)

def isVersionSplit (c : Char) : Bool := c == '.' || c == '_' || c == '-'

/-- The part read as revision and the text left in front of it. -/
def splitRevision (input : List Char) : Int × List Char :=
  match strrchr input '-' with
  | some lastDash =>
    if input[lastDash + 1]? = some 'r' then
      (toI32 (strtol (input.drop (lastDash + 2))), input.take lastDash)
    else (0, input)
  | none => (0, input)

def atomVersionInit (input : List Char) : AtomVersion :=
  let r := splitRevision input
  let built := versionNodes (r.2.splitOnP isVersionSplit)
  { fullVersion := if built.2 then some input else none
    head := built.1.headD { v := none, pre := .alpha }
    next := built.1.tail
    revision := r.1 }

/-- `s[l - 1]`, undefined in front of the string. -/
def endChar (s : List Char) : Nat → Option Char
  | 0 => none
  | l + 1 => s[l]?

def aboveNine (c : Char) : Bool := charVal '9' < charVal c

/-- `star_skip` with the two lengths less a trailing `*`. -/
def starSkip (scf scs : List Char) : Option (Bool × Nat × Nat) := do
  if (← endChar scf scf.length) = '*' then
    return (true, scf.length - 1, scs.length)
  else if (← endChar scs scs.length) = '*' then
    return (true, scf.length, scs.length - 1)
  else
    return (false, scf.length, scs.length)

/-- The early returns under the comment `12.5.4 > 12.5b`. -/
def letterRule (scf scs : List Char) (lf ls : Nat) (cfNext csNext : Bool) :
    Option (Option Int) := do
  let first ← if csNext then (endChar scf lf).map aboveNine else some false
  if first then return some (-1) else
    let second ← if cfNext then (endChar scs ls).map aboveNine else some false
    return if second then some 1 else none

/-- The buffers `r1` and `r2`. -/
def paddedComponent (s : List Char) (l maxlength : Nat) : List Char :=
  s.take l ++ List.replicate (maxlength - l) '0'

def plainNumber (s : List Char) (l : Nat) : Prop := s.head? ≠ some '0' ∨ l = 1

instance (s : List Char) (l : Nat) : Decidable (plainNumber s l) :=
  inferInstanceAs (Decidable (_ ∨ _))

/-- `cmp_1` and `cmp_2`; a component of 128 characters fails the assertion. -/
def componentNumbers (scf scs : List Char) (lf ls : Nat) : Option (Int × Int) :=
  if plainNumber scf lf ∧ plainNumber scs ls then
    some (toI32 (strtol scf), toI32 (strtol scs))
  else
    let maxlength := max lf ls
    if maxlength < 128 then
      some (toI32 (strtol (paddedComponent scf lf maxlength)),
        toI32 (strtol (paddedComponent scs ls maxlength)))
    else none

def suffixVal (c : Char) : Int := if aboveNine c then charVal c else 0

/-- What one turn of the loop does: return a value or go on. -/
inductive CompareStep
  | ret (cmp : Int)
  | next
  deriving DecidableEq, Repr

def finishStep (star : Bool) (cmp cmpSuf : Int) : CompareStep :=
  if cmp ≠ 0 then .ret cmp
  else if star then .ret 0
  else if cmpSuf ≠ 0 then .ret cmpSuf
  else .next

def compareStep (cf cs : VersionNode) (cfNext csNext : Bool) : Option CompareStep :=
  if cf.pre ≠ cs.pre then some (.ret (cf.pre.val - cs.pre.val)) else do
    let scf ← cf.v
    let scs ← cs.v
    let (star, lf, ls) ← starSkip scf scs
    match ← letterRule scf scs lf ls cfNext csNext with
    | some early => return .ret early
    | none =>
      let ef ← endChar scf lf
      let es ← endChar scs ls
      let (cmp1, cmp2) ← componentNumbers scf scs lf ls
      return finishStep star (toI32 (cmp1 - cmp2)) (suffixVal ef - suffixVal es)

/-- The loop, with the difference of the revisions to return at its end. -/
def compareLoop (revs : Int) : List VersionNode → List VersionNode → Option Int
  | [], [] => some revs
  | _ :: _, [] => some 1
  | [], _ :: _ => some (-1)
  | cf :: fs, cs :: ss => do
    match ← compareStep cf cs (!fs.isEmpty) (!ss.isEmpty) with
    | .ret cmp => return cmp
    | .next => compareLoop revs fs ss

def atomVersionCompare : Option AtomVersion → Option AtomVersion → Option Int
  | none, none => none
  | some _, none => some 1
  | none, some _ => some (-1)
  | some first, some second =>
    compareLoop (toI32 (first.revision - second.revision)) first.nodes second.nodes

example : atomVersionCompare (some (atomVersionInit "1.3.0".toList))
    (some (atomVersionInit "1.2.9".toList)) = some 1 := by decide

end AutoGentoo
