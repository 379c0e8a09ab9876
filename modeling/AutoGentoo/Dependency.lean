import AutoGentoo.Atom
import AutoGentoo.RequiredUseHook
import Mathlib.Data.Fintype.Basic
import Mathlib.Tactic.FinCases

/-! Dependency expressions, the metadata of an ebuild, and the lists a selected
ebuild sorts its dependencies into. -/

namespace AutoGentoo

/-- A Dependency with what its pointers lead to; `useCondition` is the id of a
flag, or 0. -/
inductive DependTree
  | null
  | node (useOperator : UseOperator) (useCondition : Nat) (atom : Option Atom)
      (children next : DependTree)
  deriving DecidableEq, Repr

/-- What `ebuild_metadata_init` fills in. -/
structure Metadata where
  slot : Option (List Char)
  depend : DependTree
  rdepend : DependTree
  pdepend : DependTree
  bdepend : DependTree
  iuse : Dict (List Char) UseFlag
  requiredUse : UseTree
  deriving DecidableEq, Repr

namespace Metadata

/-- An ebuild of which no metadata has been read. -/
def blank : Metadata where
  slot := none
  depend := .null
  rdepend := .null
  pdepend := .null
  bdepend := .null
  iuse := []
  requiredUse := .null

end Metadata

/-- What reading a cache file sets, and whether it is read without an error. -/
structure CacheFile where
  fields : Metadata
  ok : Bool
  deriving DecidableEq, Repr

structure DependencyContainer (α : Type) where
  depend : List α
  runDepend : List α
  buildDepend : List α
  postDepend : List α
  deriving DecidableEq, Repr

namespace DependencyContainer

variable {α : Type}

def empty : DependencyContainer α :=
  { depend := [], runDepend := [], buildDepend := [], postDepend := [] }

/-- `__getitem__` -/
def getItem (self : DependencyContainer α) : Fin 4 → List α
  | 0 => self.depend
  | 1 => self.runDepend
  | 2 => self.buildDepend
  | 3 => self.postDepend

/-- `self[idx].append(x)` -/
def append (self : DependencyContainer α) (idx : Fin 4) (x : α) : DependencyContainer α :=
  match idx with
  | 0 => { self with depend := self.depend ++ [x] }
  | 1 => { self with runDepend := self.runDepend ++ [x] }
  | 2 => { self with buildDepend := self.buildDepend ++ [x] }
  | 3 => { self with postDepend := self.postDepend ++ [x] }

/-- The values in the order of iteration, each with the index of its list. -/
def entries (self : DependencyContainer α) : List (Fin 4 × α) :=
  self.depend.map (0, ·) ++ self.runDepend.map (1, ·) ++ self.buildDepend.map (2, ·) ++
    self.postDepend.map (3, ·)

/-- The lists, in the order `regenerate` comes to them. -/
def indices : List (Fin 4) := [0, 1, 2, 3]

theorem mem_indices (i : Fin 4) : i ∈ indices := by
  fin_cases i <;> simp [indices]

@[simp] theorem getItem_empty (i : Fin 4) : (empty : DependencyContainer α).getItem i = [] := by
  fin_cases i <;> rfl

/-- `append` of each value to the list of its index. -/
def appendAll (self : DependencyContainer α) (l : List (Fin 4 × α)) : DependencyContainer α :=
  l.foldl (fun c p => c.append p.1 p.2) self

theorem getItem_append (self : DependencyContainer α) (i j : Fin 4) (x : α) :
    (self.append i x).getItem j = if i = j then self.getItem j ++ [x] else self.getItem j := by
  fin_cases i <;> fin_cases j <;> rfl

theorem getItem_appendAll (self : DependencyContainer α) (l : List (Fin 4 × α)) (i : Fin 4) :
    (self.appendAll l).getItem i = self.getItem i ++ (l.filter (·.1 = i)).map Prod.snd := by
  induction l generalizing self with
  | nil => simp [appendAll]
  | cons p l ih =>
    have hstep : self.appendAll (p :: l) = (self.append p.1 p.2).appendAll l := rfl
    rw [hstep, ih, getItem_append]
    by_cases h : p.1 = i
    · simp [h]
    · simp [h]

theorem ext_getItem {self other : DependencyContainer α} (h : ∀ i, self.getItem i = other.getItem i) :
    self = other := by
  have h0 : self.depend = other.depend := h 0
  have h1 : self.runDepend = other.runDepend := h 1
  have h2 : self.buildDepend = other.buildDepend := h 2
  have h3 : self.postDepend = other.postDepend := h 3
  cases self
  cases other
  simp only at h0 h1 h2 h3
  rw [h0, h1, h2, h3]

/-- Appending the values of a container again gives the container. -/
theorem appendAll_entries (self : DependencyContainer α) : empty.appendAll self.entries = self := by
  refine ext_getItem fun i => ?_
  rw [getItem_appendAll, getItem_empty, List.nil_append, entries]
  fin_cases i <;> simp [List.filter_map, Function.comp_def, getItem]

end DependencyContainer

end AutoGentoo
