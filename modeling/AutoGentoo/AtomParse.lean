import AutoGentoo.AtomInit
import AutoGentoo.DependRead

/-! `atom_parse`, which takes its atom out of the structure `depend_parse` builds. -/

namespace AutoGentoo

/-- How a call of `atom_parse` ends; it does not return from Py_INCREF of NULL. -/
inductive ParsedAtom
  | null
  | atom (self : Atom)
  | crash
  deriving DecidableEq, Repr

/-- What `atom_parse` makes of the result of `depend_parse`. -/
def atomOut (out : DependTree) : ParsedAtom :=
  match out with
  | .null => .null
  | .node _ _ (some atom) _ _ => .atom atom
  | .node _ _ none _ _ => .crash

section Parser

-- The generated parser: the derivation it finds for an input, none where the input is
-- empty or outside the grammar.
variable (derivation : List Char → Option (DependExpr SelectName AtomExpr))

/-- `depend_parse`, with the flags interned so far. -/
def dependParse (heap : UseHeap) (input : List Char) : Option (UseHeap × DependTree) :=
  heap.programDepend (derivation input)

def atomParse (heap : UseHeap) (input : List Char) : ParsedAtom :=
  match dependParse derivation heap input with
  | none => .crash
  | some out => atomOut out.2

/-- An atom is returned for an input that is one atom, NULL for every other. -/
structure OneAtom (heap : UseHeap) (input : List Char) : Prop where
  atom : ∀ e, derivation input = some (.single (.atom e)) →
    atomParse derivation heap input = .atom e.reduce
  other : (∀ e, derivation input ≠ some (.single (.atom e))) → atomParse derivation heap input = .null

end Parser

/-- The atom of the node of an expression. -/
def DependExprSingle.nodeAtom : DependExprSingle SelectName AtomExpr → Option Atom
  | .atom e => some e.reduce
  | .select _ _ | .group _ => none

def DependExpr.firstAtom : DependExpr SelectName AtomExpr → Option Atom
  | .single s => s.nodeAtom
  | .cons s _ => s.nodeAtom

def DependTree.HasAtom (t : DependTree) (atom : Option Atom) : Prop :=
  ∃ useOperator useCondition children next, t = .node useOperator useCondition atom children next

theorem dependExprSingle_atom {heap : UseHeap} {s : DependExprSingle SelectName AtomExpr}
    {r : UseHeap × DependTree} (h : heap.dependExprSingle s = some r) : r.2.HasAtom s.nodeAtom := by
  cases s with
  | atom e =>
    rw [UseHeap.dependExprSingle] at h
    rw [← Option.some.inj h]
    exact ⟨_, _, _, _, rfl⟩
  | group e =>
    rw [UseHeap.dependExprSingle] at h
    obtain ⟨second, -, rfl⟩ := Option.map_eq_some_iff.mp h
    exact ⟨_, _, _, _, rfl⟩
  | select sel e =>
    rw [UseHeap.dependExprSingle] at h
    obtain ⟨third, -, hbuild⟩ := Option.bind_eq_some_iff.mp h
    unfold UseHeap.dependencyBuildUse at hbuild
    split at hbuild
    · obtain ⟨found, -, rfl⟩ := Option.map_eq_some_iff.mp hbuild
      exact ⟨_, _, _, _, rfl⟩
    · rw [← Option.some.inj hbuild]
      exact ⟨_, _, _, _, rfl⟩

theorem dependExpr_atom {heap : UseHeap} {e : DependExpr SelectName AtomExpr}
    {r : UseHeap × DependTree} (h : heap.dependExpr e = some r) : r.2.HasAtom e.firstAtom := by
  cases e with
  | single s =>
    rw [UseHeap.dependExpr] at h
    exact dependExprSingle_atom h
  | cons s rest =>
    rw [UseHeap.dependExpr] at h
    obtain ⟨first, hfirst, hrest⟩ := Option.bind_eq_some_iff.mp h
    obtain ⟨second, -, rfl⟩ := Option.map_eq_some_iff.mp hrest
    obtain ⟨op, cond, children, next, hnode⟩ := dependExprSingle_atom hfirst
    exact ⟨op, cond, children, second.2, by rw [hnode]; rfl⟩

theorem atomOut_ne_null {t : DependTree} {atom : Option Atom} (h : t.HasAtom atom) : atomOut t ≠ .null := by
  obtain ⟨op, cond, children, next, rfl⟩ := h
  cases atom <;> simp [atomOut]

theorem atomParse_ne_null {derivation : List Char → Option (DependExpr SelectName AtomExpr)}
    {input : List Char} {e : DependExpr SelectName AtomExpr} (h : derivation input = some e)
    (heap : UseHeap) : atomParse derivation heap input ≠ .null := by
  rw [atomParse, dependParse, h, UseHeap.programDepend]
  split
  · simp
  · next out hout => exact atomOut_ne_null (dependExpr_atom hout)

theorem atomParse_oneAtom_iff (derivation : List Char → Option (DependExpr SelectName AtomExpr))
    (heap : UseHeap) (input : List Char) : OneAtom derivation heap input ↔
      derivation input = none ∨ ∃ e, derivation input = some (.single (.atom e)) := by
  constructor
  · intro h
    cases hd : derivation input with
    | none => exact .inl rfl
    | some e =>
      by_contra hnot
      have hother : ∀ a, derivation input ≠ some (.single (.atom a)) := by
        intro a ha
        exact hnot (.inr ⟨a, hd.symm.trans ha⟩)
      exact atomParse_ne_null hd heap (h.other hother)
  · rintro (hnone | ⟨e, he⟩)
    · refine ⟨fun a ha => ?_, fun _ => ?_⟩
      · exact absurd (hnone.symm.trans ha) (by simp)
      · rw [atomParse, dependParse, hnone]
        rfl
    · refine ⟨fun a ha => ?_, fun hne => absurd he (hne e)⟩
      rw [atomParse, dependParse, ha]
      rfl

/-- `( a/b )`, as the grammar derives it. -/
def groupDerivation (input : List Char) : Option (DependExpr SelectName AtomExpr) :=
  if input = "( a/b )".toList then
    (atomFields "a/b".toList).map fun token =>
      .single (.group (.single (.atom
        { bangs := .nothing
          sign := .nothing
          token := token
          slot := none
          repository := none
          flags := none })))
  else none

theorem group_not_oneAtom : ¬ ∀ (derivation : List Char → Option (DependExpr SelectName AtomExpr))
    (heap : UseHeap) (input : List Char), OneAtom derivation heap input := by
  intro h
  have hother : ∀ e, groupDerivation "( a/b )".toList ≠ some (.single (.atom e)) := by
    intro e he
    rw [groupDerivation, if_pos rfl] at he
    obtain ⟨token, -, hs⟩ := Option.map_eq_some_iff.mp he
    exact absurd hs (by simp)
  have hnull := (h groupDerivation UseHeap.init "( a/b )".toList).other hother
  have hcrash : atomParse groupDerivation UseHeap.init "( a/b )".toList = .crash := by
    rw [atomParse, dependParse, groupDerivation, if_pos rfl]
    rfl
  exact absurd (hcrash.symm.trans hnull) (by simp)

end AutoGentoo
