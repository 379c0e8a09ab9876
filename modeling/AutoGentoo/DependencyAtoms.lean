import AutoGentoo.Regenerate

/-! The atoms of a dependency expression: those `resolve_all` comes to, and those
the states of the flags ask for. -/

namespace AutoGentoo

/-- An atom that is no blocker. -/
def requestedAtom : Option Atom → List Atom
  | none => []
  | some atom => if atom.blocks = .none then [atom] else []

namespace DependTree

/-- The non-blocker atoms of the list itself. -/
def topAtoms : DependTree → List Atom
  | .null => []
  | .node _ _ atom _ next => requestedAtom atom ++ topAtoms next

/-- Whether the children of a use-conditional are asked for. -/
def conditionMet (σ : Nat → Bool) (useOperator : UseOperator) (useCondition : Nat) : Bool :=
  match useOperator with
  | .enable => σ useCondition
  | .disable => !σ useCondition
  | _ => false

/-- The non-blocker atoms of which all enclosing conditions are met. -/
def activeAtoms (σ : Nat → Bool) : DependTree → List Atom
  | .null => []
  | .node _ _ (some atom) _ next =>
    requestedAtom (some atom) ++ activeAtoms σ next
  | .node useOperator useCondition none children next =>
    (if conditionMet σ useOperator useCondition then activeAtoms σ children else []) ++
      activeAtoms σ next

theorem topAtoms_subset (σ : Nat → Bool) (e : DependTree) : e.topAtoms ⊆ e.activeAtoms σ := by
  induction e with
  | null => exact fun a ha => ha
  | node useOperator useCondition atom children next _ ih =>
    intro a ha
    cases atom with
    | none => exact List.mem_append_right _ (ih ha)
    | some atom =>
      rcases List.mem_append.mp ha with ha | ha
      · exact List.mem_append_left _ ha
      · exact List.mem_append_right _ (ih ha)

end DependTree

namespace Metadata

/-- The expressions by the list of the container they belong to. -/
def ofContainer (self : Metadata) : Fin 4 → DependTree
  | 0 => self.depend
  | 1 => self.rdepend
  | 2 => self.bdepend
  | 3 => self.pdepend

/-- What `regenerate` asks `select_atom` for, in order, by the list it goes to. -/
def requests (self : Metadata) : List (Fin 4 × Atom) :=
  DependencyContainer.indices.flatMap fun i => (self.depTypes i).topAtoms.map (i, ·)

theorem mem_requests (self : Metadata) (i : Fin 4) (a : Atom) :
    (i, a) ∈ self.requests ↔ a ∈ (self.depTypes i).topAtoms := by
  constructor
  · intro h
    obtain ⟨j, -, hj⟩ := List.mem_flatMap.mp h
    obtain ⟨b, hb, he⟩ := List.mem_map.mp hj
    obtain ⟨rfl, rfl⟩ := Prod.mk.inj he
    exact hb
  · intro h
    exact List.mem_flatMap.mpr ⟨i, DependencyContainer.mem_indices i, List.mem_map.mpr ⟨a, h, rfl⟩⟩

end Metadata

/-- The requests that `select_atom` answers with an object, each in the state the ones before it
lead to, as entries that have the answers. -/
def answered (parent : Option Nat) : List (Fin 4 × Atom) → Emerge → List (Fin 4 × Generator)
  | [], _ => []
  | p :: l, self =>
    match selectAtom parent p.2 self with
    | .ok (some sel, self') => (p.1, { atom := p.2, sel := sel }) :: answered parent l self'
    | .ok (none, self') => answered parent l self'
    | .error _ => []

/-- The lists of the container hold just the atoms the flags ask for. -/
def DependencyContainer.HoldsActive (self : DependencyContainer Generator) (file : Metadata)
    (σ : Nat → Bool) : Prop :=
  ∀ i a, a ∈ (self.getItem i).map Generator.atom ↔ a ∈ (file.ofContainer i).activeAtoms σ

/-- The lists agree with the flags only where the atoms outside of all conditions
are, for each list, those asked for by the expression that belongs there. -/
theorem holdsActive_iff {file : Metadata} {σ : Nat → Bool} {kept : Fin 4 → Atom → Prop}
    (hkept : ∀ i a, kept i a → a ∈ (file.depTypes i).topAtoms) {c : DependencyContainer Generator}
    (hc : ∀ i a, a ∈ (c.getItem i).map Generator.atom ↔ kept i a) :
    c.HoldsActive file σ ↔
      (∀ i a, a ∈ (file.depTypes i).topAtoms ↔ a ∈ (file.ofContainer i).activeAtoms σ) ∧
        ∀ i, ∀ a ∈ (file.depTypes i).topAtoms, kept i a := by
  constructor
  · intro h
    have hact : ∀ i a, a ∈ (file.ofContainer i).activeAtoms σ → kept i a := fun i a ha =>
      (hc i a).mp ((h i a).mpr ha)
    -- each expression's own atoms are active where it belongs, and so kept under another
    have htop : ∀ i a, a ∈ (file.ofContainer i).topAtoms → kept i a := fun i a ha =>
      hact i a (DependTree.topAtoms_subset σ _ ha)
    have h0 : ∀ a, a ∈ file.depend.topAtoms → kept 0 a := htop 0
    have h1 : ∀ a, a ∈ file.rdepend.topAtoms → kept 1 a := htop 1
    have h2 : ∀ a, a ∈ file.bdepend.topAtoms → kept 2 a := htop 2
    have h3 : ∀ a, a ∈ file.pdepend.topAtoms → kept 3 a := htop 3
    have hall : ∀ i a, a ∈ (file.depTypes i).topAtoms → kept i a := by
      intro i a ha
      fin_cases i
      · exact h0 a (hkept 1 a (h1 a (hkept 2 a (h2 a ha))))
      · exact h1 a (hkept 2 a (h2 a (hkept 0 a (h0 a ha))))
      · exact h2 a (hkept 0 a (h0 a (hkept 1 a (h1 a ha))))
      · exact h3 a ha
    exact ⟨fun i a => ⟨fun ha => (h i a).mp ((hc i a).mpr (hall i a ha)),
      fun ha => hkept i a (hact i a ha)⟩, hall⟩
  · rintro ⟨h, hall⟩ i a
    rw [hc, ← h]
    exact ⟨hkept i a, hall i a⟩

end AutoGentoo
