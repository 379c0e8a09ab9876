import AutoGentoo.DependGrammar

/-! Reading a dependency structure back gives the expression it was built from
exactly when every flag is read back. -/

namespace AutoGentoo

open Lut

/-- What `use_select` makes of a flag. -/
def internedName (negated : Bool) (name : List Char) : List Char :=
  if negated then name ++ ['?'] else name

def flagOperator (negated : Bool) : UseOperator := if negated then .disable else .enable

theorem SelectName.head_ne (name : SelectName) : name.val.head? ≠ some '!' := by
  obtain ⟨_ | ⟨c, rest⟩, hne, hall⟩ := name
  · exact absurd rfl hne
  · intro hc
    have hbang := hall c (by simp)
    rw [Option.some.inj hc] at hbang
    exact absurd hbang (by decide)

/-- After a bang one character too many is taken. -/
theorem SelectText.lex_flag (negated : Bool) (name : SelectName) :
    (flag negated name).lex =
      { target := some (internedName negated name.val), operator := flagOperator negated } := by
  cases negated with
  | true => simp [SelectText.lex, useSelect, flagText, internedName, flagOperator]
  | false =>
    have hhead : (flagText false name.val).head? ≠ some '!' := by
      have hne := name.property.1
      have hname := name.head_ne
      cases hn : name.val with
      | nil => exact absurd hn hne
      | cons c rest => rwa [hn] at hname
    rw [SelectText.lex, useSelect, if_neg hhead]
    simp [flagText, internedName, flagOperator]

theorem atomVersion_eq (sign : VersionSign) (atom : Atom) :
    atomVersion sign atom = { atom with range := sign.range } := by
  cases sign <;> rfl

theorem atomBlock_eq (bangs : BlockSign) (atom : Atom) :
    atomBlock bangs atom = { atom with blocks := bangs.blocks } := by
  cases bangs <;> rfl

theorem atomSlot_eq (slot : Option SlotToken) (atom : Atom) :
    atomSlot slot atom = { atom with
      slot := slot.bind SlotToken.name
      subSlot := slot.bind SlotToken.subName
      slotOpts := (slot.map SlotToken.slotOpts).getD .ignore } := by
  cases slot <;> rfl

theorem atomRepo_eq (repository : Option (List Char)) (atom : Atom) :
    atomRepo repository atom = { atom with repository := repository } := by
  cases repository <;> rfl

theorem atomFlags_eq (flags : Option (List AtomFlag)) (atom : Atom) :
    atomFlags flags atom = { atom with useflags := flags.getD [] } := by
  cases flags <;> rfl

theorem AtomExpr.reduce_eq (e : AtomExpr) : e.reduce = e.value := by
  rw [AtomExpr.reduce, atomVersion_eq, atomBlock_eq, atomSlot_eq, atomRepo_eq, atomFlags_eq]
  rfl

/-! ### The names of an expression -/

mutual

/-- The selections, in the order of their reduction. -/
def DependExpr.selects : DependExpr SelectName AtomExpr → List (SelectText SelectName)
  | .single s => s.selects
  | .cons s rest => s.selects ++ rest.selects

def DependExprSingle.selects : DependExprSingle SelectName AtomExpr → List (SelectText SelectName)
  | .atom _ => []
  | .select sel e => e.selects ++ [sel]
  | .group e => e.selects

end

def targetsOf (sels : List (SelectText SelectName)) : List (List Char) :=
  sels.filterMap fun sel => sel.lex.target

theorem targetsOf_append (a b : List (SelectText SelectName)) :
    targetsOf (a ++ b) = targetsOf a ++ targetsOf b := List.filterMap_append

theorem mem_targetsOf {sels : List (SelectText SelectName)} {sel : SelectText SelectName}
    {target : List Char} (hm : sel ∈ sels) (ht : target ∈ sel.lex.target) : target ∈ targetsOf sels :=
  List.mem_filterMap.mpr ⟨sel, hm, ht⟩

/-- The id of a flag leads to its own name. -/
def SelectText.Kept (names : List (List Char)) : SelectText SelectName → Prop
  | flag negated name => nameUnder names (internedName negated name.val) = some name.val
  | _ => True

/-! ### The structure the actions build -/

def conditionOf (names : List (List Char)) (target : Option (List Char)) : Nat :=
  (target.map (idOf names)).getD 0

mutual

def DependExpr.built (names : List (List Char)) : DependExpr SelectName AtomExpr → DependTree
  | .single s => s.built names .null
  | .cons s rest => s.built names (rest.built names)

def DependExprSingle.built (names : List (List Char)) :
    DependExprSingle SelectName AtomExpr → DependTree → DependTree
  | .atom a, next => .node .disable 0 (some a.value) .null next
  | .select sel e, next =>
    .node sel.lex.operator (conditionOf names sel.lex.target) none (e.built names) next
  | .group e, next => .node .disable 0 none (e.built names) next

end

theorem DependExprSingle.setNext_built (names : List (List Char))
    (s : DependExprSingle SelectName AtomExpr) (next : DependTree) :
    (s.built names .null).setNext next = s.built names next := by
  cases s <;> rfl

theorem DependExprSingle.isNull_built (names : List (List Char))
    (s : DependExprSingle SelectName AtomExpr) (next : DependTree) :
    (s.built names next).isNull = false := by
  cases s <;> rfl

theorem DependExpr.isNull_built (names : List (List Char)) (e : DependExpr SelectName AtomExpr) :
    (e.built names).isNull = false := by
  cases e with
  | single s => exact s.isNull_built names _
  | cons s rest => exact s.isNull_built names _

theorem conditionOf_append {names : List (List Char)} {target : Option (List Char)}
    (ht : ∀ name ∈ target, name ∈ names) (more : List (List Char)) :
    conditionOf (names ++ more) target = conditionOf names target := by
  cases target with
  | none => simp only [conditionOf, Option.map_none]
  | some name => simp only [conditionOf, Option.map_some, idOf_append (ht name rfl)]

mutual

/-- Names met later leave the ids as they are. -/
theorem DependExpr.built_append {names : List (List Char)} (more : List (List Char)) :
    ∀ {e : DependExpr SelectName AtomExpr}, targetsOf e.selects ⊆ names →
      e.built (names ++ more) = e.built names
  | .single s, hs => by
    rw [DependExpr.selects] at hs
    rw [DependExpr.built, DependExpr.built, DependExprSingle.built_append more hs]
  | .cons s rest, hs => by
    rw [DependExpr.selects, targetsOf_append, List.append_subset] at hs
    rw [DependExpr.built, DependExpr.built, DependExpr.built_append more hs.2,
      DependExprSingle.built_append more hs.1]

theorem DependExprSingle.built_append {names : List (List Char)} (more : List (List Char)) :
    ∀ {s : DependExprSingle SelectName AtomExpr}, targetsOf s.selects ⊆ names →
      ∀ next, s.built (names ++ more) next = s.built names next
  | .atom _, _, _ => rfl
  | .select sel e, hs, next => by
    rw [DependExprSingle.selects, targetsOf_append, List.append_subset] at hs
    have hcond : conditionOf (names ++ more) sel.lex.target = conditionOf names sel.lex.target :=
      conditionOf_append (fun target ht => hs.2 (mem_targetsOf (List.mem_singleton_self sel) ht)) more
    rw [DependExprSingle.built, DependExprSingle.built, DependExpr.built_append more hs.1, hcond]
  | .group e, hs, next => by
    rw [DependExprSingle.selects] at hs
    rw [DependExprSingle.built, DependExprSingle.built, DependExpr.built_append more hs]

end

theorem UseHeap.dependencyBuildUse_interned {heap : UseHeap} {names : List (List Char)}
    (hi : Interned heap.globalFlags names) (sel : SelectText SelectName) (children : DependTree) :
    ∃ heap', heap.dependencyBuildUse sel.lex.target sel.lex.operator children =
        some (heap', .node sel.lex.operator
          (conditionOf (names ++ targetsOf [sel]) sel.lex.target) none children .null) ∧
      Interned heap'.globalFlags (names ++ targetsOf [sel]) := by
  cases ht : sel.lex.target with
  | none =>
    have hnone : targetsOf [sel] = [] := by simp [targetsOf, ht]
    rw [hnone, List.append_nil]
    exact ⟨heap, rfl, hi⟩
  | some target =>
    have hone : targetsOf [sel] = [target] := by simp [targetsOf, ht]
    obtain ⟨heap', hget, hi'⟩ := heap.useGetGlobal_interned hi target
    rw [hone]
    refine ⟨heap', ?_, hi'⟩
    rw [UseHeap.dependencyBuildUse, hget]
    rfl

mutual

theorem UseHeap.dependExpr_built {heap : UseHeap} {names : List (List Char)}
    (hi : Interned heap.globalFlags names) : ∀ e : DependExpr SelectName AtomExpr,
      ∃ heap', heap.dependExpr e = some (heap', e.built (names ++ targetsOf e.selects)) ∧
        Interned heap'.globalFlags (names ++ targetsOf e.selects)
  | .single s => by
    rw [UseHeap.dependExpr, DependExpr.built, DependExpr.selects]
    exact UseHeap.dependExprSingle_built hi s
  | .cons s rest => by
    obtain ⟨first, hf, hi⟩ := UseHeap.dependExprSingle_built hi s
    obtain ⟨second, hs, hi⟩ := UseHeap.dependExpr_built hi rest
    rw [List.append_assoc, ← targetsOf_append] at hi
    refine ⟨second, ?_, hi⟩
    rw [UseHeap.dependExpr, hf, Option.bind_some, hs, Option.map_some,
      DependExprSingle.setNext_built, DependExpr.built, DependExpr.selects, targetsOf_append,
      ← List.append_assoc, DependExprSingle.built_append _ (List.subset_append_right _ _)]

theorem UseHeap.dependExprSingle_built {heap : UseHeap} {names : List (List Char)}
    (hi : Interned heap.globalFlags names) : ∀ s : DependExprSingle SelectName AtomExpr,
      ∃ heap', heap.dependExprSingle s = some (heap', s.built (names ++ targetsOf s.selects) .null) ∧
        Interned heap'.globalFlags (names ++ targetsOf s.selects)
  | .atom a => by
    refine ⟨heap, ?_, by simpa [DependExprSingle.selects, targetsOf] using hi⟩
    rw [UseHeap.dependExprSingle, dependencyBuildAtom, a.reduce_eq]
    rfl
  | .select sel e => by
    obtain ⟨third, ht, hi⟩ := UseHeap.dependExpr_built hi e
    obtain ⟨heap', hb, hi⟩ := UseHeap.dependencyBuildUse_interned hi sel
      (e.built (names ++ targetsOf e.selects))
    rw [List.append_assoc, ← targetsOf_append] at hb hi
    refine ⟨heap', ?_, hi⟩
    rw [UseHeap.dependExprSingle, ht, Option.bind_some, hb, DependExprSingle.built,
      DependExprSingle.selects, targetsOf_append, ← List.append_assoc,
      DependExpr.built_append _ (List.subset_append_right _ _)]
  | .group e => by
    obtain ⟨heap', he, hi⟩ := UseHeap.dependExpr_built hi e
    rw [DependExprSingle.selects]
    refine ⟨heap', ?_, hi⟩
    rw [UseHeap.dependExprSingle, he]
    rfl

end

/-! ### Reading it back -/

/-- What is read from the node of an item. -/
def DependExprSingle.readHead (flags : Lut) (names : List (List Char)) :
    DependExprSingle SelectName AtomExpr → Option (DependExprSingle (List Char) Atom)
  | .atom a => some (.atom a.value)
  | .select sel e =>
    readSingle flags sel.lex.operator (conditionOf names sel.lex.target) none
      ((e.built names).read flags)
  | .group e => readSingle flags .disable 0 none ((e.built names).read flags)

theorem DependExprSingle.read_built (flags : Lut) (names : List (List Char))
    (s : DependExprSingle SelectName AtomExpr) (next : DependTree) :
    (s.built names next).read flags = (s.readHead flags names).bind fun s' =>
      if next.isNull then some (.single s') else (next.read flags).map (.cons s') := by
  cases s <;> simp only [DependExprSingle.built, DependTree.read, DependExprSingle.readHead, readSingle]

theorem readSingle_eq_some {flags : Lut} {op : UseOperator} {cond : Nat}
    {children : Option (DependExpr (List Char) Atom)} {s : DependExprSingle (List Char) Atom} :
    readSingle flags op cond none children = some s ↔
      ∃ e, children = some e ∧ readGroup flags op cond e = some s := by
  cases children <;> simp [readSingle]

theorem readGroup_flag {flags : Lut} {names : List (List Char)} (hi : Interned flags names)
    {target : List Char} (hm : target ∈ names) (hid : idOf names target ≠ 0) (negated : Bool)
    (e : DependExpr (List Char) Atom) :
    readGroup flags (flagOperator negated) (conditionOf names (some target)) e =
      (nameUnder names target).map fun name => .select (.flag negated name) e := by
  have hcond : conditionOf names (some target) = idOf names target := by
    simp only [conditionOf, Option.map_some, Option.getD_some]
  have hkey := hi.getKey hm
  rw [hcond]
  cases negated <;> simp only [readGroup, flagOperator, if_neg hid, hkey] <;>
    cases nameUnder names target <;> rfl

/-- The node of a selection is read as it was written when its flag is kept. -/
theorem readGroup_select_iff {flags : Lut} {names : List (List Char)} (hi : Interned flags names)
    {sel : SelectText SelectName} (hs : ∀ target ∈ sel.lex.target, target ∈ names)
    (hid : ∀ target ∈ sel.lex.target, idOf names target ≠ 0) {e v : DependExpr (List Char) Atom} :
    readGroup flags sel.lex.operator (conditionOf names sel.lex.target) e =
      some (.select sel.value v) ↔ e = v ∧ sel.Kept names := by
  cases sel with
  | flag negated name =>
    rw [SelectText.lex_flag] at hs hid ⊢
    rw [readGroup_flag hi (hs _ rfl) (hid _ rfl), SelectText.value, SelectText.Kept]
    simp only [Option.map_eq_some_iff, DependExprSingle.select.injEq, SelectText.flag.injEq, true_and]
    constructor
    · rintro ⟨other, hother, rfl, he⟩
      exact ⟨he, hother⟩
    · rintro ⟨he, hkept⟩
      exact ⟨_, hkept, rfl, he⟩
  | mostOne => simp [SelectText.lex, conditionOf, readGroup, SelectText.value, SelectText.Kept]
  | leastOne => simp [SelectText.lex, conditionOf, readGroup, SelectText.value, SelectText.Kept]
  | exactOne => simp [SelectText.lex, conditionOf, readGroup, SelectText.value, SelectText.Kept]

/-- The ids of the selections, as the parser meets them. -/
structure Known (names : List (List Char)) (sels : List (SelectText SelectName)) : Prop where
  mem : ∀ target ∈ targetsOf sels, target ∈ names
  ne_zero : ∀ target ∈ targetsOf sels, idOf names target ≠ 0

theorem Known.append {names : List (List Char)} {a b : List (SelectText SelectName)}
    (h : Known names (a ++ b)) : Known names a ∧ Known names b := by
  obtain ⟨hmem, hne⟩ := h
  rw [targetsOf_append] at hmem hne
  simp only [List.mem_append] at hmem hne
  exact ⟨⟨fun t ht => hmem t (.inl ht), fun t ht => hne t (.inl ht)⟩,
    ⟨fun t ht => hmem t (.inr ht), fun t ht => hne t (.inr ht)⟩⟩

mutual

theorem DependExpr.read_built_iff {flags : Lut} {names : List (List Char)}
    (hi : Interned flags names) : ∀ {e : DependExpr SelectName AtomExpr}, Known names e.selects →
      ((e.built names).read flags = some e.value ↔ ∀ sel ∈ e.selects, sel.Kept names)
  | .single s, hk => by
    rw [DependExpr.selects] at hk ⊢
    rw [DependExpr.built, DependExprSingle.read_built, DependExpr.value,
      ← DependExprSingle.readHead_iff hi hk]
    cases s.readHead flags names <;> simp [DependTree.isNull]
  | .cons s rest, hk => by
    rw [DependExpr.selects] at hk ⊢
    obtain ⟨hks, hkr⟩ := hk.append
    rw [DependExpr.built, DependExprSingle.read_built, DependExpr.value, rest.isNull_built,
      List.forall_mem_append, ← DependExprSingle.readHead_iff hi hks,
      ← DependExpr.read_built_iff hi hkr]
    cases s.readHead flags names <;> simp [and_comm]

theorem DependExprSingle.readHead_iff {flags : Lut} {names : List (List Char)}
    (hi : Interned flags names) : ∀ {s : DependExprSingle SelectName AtomExpr},
      Known names s.selects →
        (s.readHead flags names = some s.value ↔ ∀ sel ∈ s.selects, sel.Kept names)
  | .atom a, _ => by simp [DependExprSingle.readHead, DependExprSingle.value, DependExprSingle.selects]
  | .select sel e, hk => by
    rw [DependExprSingle.selects] at hk ⊢
    obtain ⟨hke, hks⟩ := hk.append
    have hmem := fun target ht => hks.mem target (mem_targetsOf (List.mem_singleton_self sel) ht)
    have hne := fun target ht => hks.ne_zero target (mem_targetsOf (List.mem_singleton_self sel) ht)
    rw [DependExprSingle.readHead, DependExprSingle.value, readSingle_eq_some,
      List.forall_mem_append, ← DependExpr.read_built_iff hi hke]
    simp only [readGroup_select_iff hi hmem hne, List.mem_singleton, forall_eq]
    constructor
    · rintro ⟨v, hread, rfl, hkept⟩
      exact ⟨hread, hkept⟩
    · rintro ⟨hread, hkept⟩
      exact ⟨_, hread, rfl, hkept⟩
  | .group e, hk => by
    rw [DependExprSingle.selects] at hk ⊢
    rw [DependExprSingle.readHead, DependExprSingle.value, readSingle_eq_some,
      ← DependExpr.read_built_iff hi hk]
    simp [readGroup]

end

/-! ### Whole texts -/

def programSelects (p : Option (DependExpr SelectName AtomExpr)) : List (SelectText SelectName) :=
  (p.map DependExpr.selects).getD []

def programTargets (p : Option (DependExpr SelectName AtomExpr)) : List (List Char) :=
  targetsOf (programSelects p)

def programValue (p : Option (DependExpr SelectName AtomExpr)) :
    Option (DependExpr (List Char) Atom) := p.map DependExpr.value

def ProgramKept (names : List (List Char)) (p : Option (DependExpr SelectName AtomExpr)) : Prop :=
  ∀ sel ∈ programSelects p, sel.Kept names

def programBuilt (names : List (List Char)) (p : Option (DependExpr SelectName AtomExpr)) :
    DependTree := (p.map (DependExpr.built names)).getD .null

theorem UseHeap.init_interned : Interned UseHeap.init.globalFlags [] := Interned.init (by decide)

theorem UseHeap.internAll_interned {heap : UseHeap} {names : List (List Char)}
    (hi : Interned heap.globalFlags names) (more : List (List Char)) :
    ∃ heap', heap.internAll more = some heap' ∧ Interned heap'.globalFlags (names ++ more) := by
  induction more generalizing heap names with
  | nil => exact ⟨heap, rfl, by rwa [List.append_nil]⟩
  | cons name more ih =>
    obtain ⟨mid, hmid, hi⟩ := heap.useGetGlobal_interned hi name
    obtain ⟨heap', hheap, hi⟩ := ih hi
    rw [List.append_assoc, List.singleton_append] at hi
    exact ⟨heap', by rw [UseHeap.internAll, hmid, Option.bind_some, hheap], hi⟩

theorem UseHeap.programDepend_built {heap : UseHeap} {names : List (List Char)}
    (hi : Interned heap.globalFlags names) (p : Option (DependExpr SelectName AtomExpr)) :
    ∃ heap', heap.programDepend p = some (heap', programBuilt (names ++ programTargets p) p) ∧
      Interned heap'.globalFlags (names ++ programTargets p) := by
  cases p with
  | none => exact ⟨heap, rfl, by simpa [programTargets, programSelects, targetsOf] using hi⟩
  | some e => exact UseHeap.dependExpr_built hi e

theorem programBuilt_append {names : List (List Char)}
    {p : Option (DependExpr SelectName AtomExpr)} (hs : programTargets p ⊆ names)
    (more : List (List Char)) : programBuilt (names ++ more) p = programBuilt names p := by
  cases p with
  | none => rfl
  | some e => exact DependExpr.built_append more hs

theorem readProgram_built_iff {flags : Lut} {names : List (List Char)} (hi : Interned flags names)
    {p : Option (DependExpr SelectName AtomExpr)} (hs : programTargets p ⊆ names)
    (hid : ∀ target ∈ programTargets p, idOf names target ≠ 0) :
    (programBuilt names p).readProgram flags = some (programValue p) ↔ ProgramKept names p := by
  cases p with
  | none => simp [programBuilt, DependTree.readProgram, DependTree.isNull, programValue, ProgramKept,
      programSelects]
  | some e =>
    have hread : (programBuilt names (some e)).readProgram flags =
        ((e.built names).read flags).map some := by
      rw [programBuilt, Option.map_some, Option.getD_some, DependTree.readProgram, e.isNull_built]
      rfl
    rw [hread, programValue, Option.map_some]
    have hiff := DependExpr.read_built_iff hi ⟨fun t ht => hs ht, hid⟩
    refine Iff.trans ?_ hiff
    cases (e.built names).read flags <;> simp

/-- With fewer than `2 ^ 16` names to a hash only a bang loses a name. -/
theorem programKept_iff_of_few {names : List (List Char)} (hfew : FewCollisions names)
    {p : Option (DependExpr SelectName AtomExpr)} (hs : programTargets p ⊆ names) :
    ProgramKept names p ↔ ∀ name, SelectText.flag true name ∉ programSelects p := by
  have hunder : ∀ negated name, SelectText.flag negated name ∈ programSelects p →
      nameUnder names (internedName negated name.val) = some (internedName negated name.val) := by
    intro negated name hm
    have hmem := hs (mem_targetsOf hm (by rw [SelectText.lex_flag]; rfl))
    exact (nameUnder_self_iff hmem).mpr (placeOf_of_few hmem hfew)
  constructor
  · intro hkept name hm
    have hname := (hunder true name hm).symm.trans (hkept _ hm)
    simp [internedName] at hname
  · intro hnone sel hm
    cases sel with
    | flag negated name =>
      cases negated with
      | true => exact absurd hm (hnone name)
      | false => exact hunder false name hm
    | _ => trivial

/-- Two texts parsed one after the other, whatever names were met before: each
is read back from the final table exactly when its flags are kept. -/
theorem programDepend_read_iff (past : List (List Char))
    (p q : Option (DependExpr SelectName AtomExpr)) :
    ∃ heap₀ heap₁ heap root₁ root₂, UseHeap.init.internAll past = some heap₀ ∧
      heap₀.programDepend p = some (heap₁, root₁) ∧ heap₁.programDepend q = some (heap, root₂) ∧
      ((∀ name ∈ programTargets p ++ programTargets q, (lutGetId heap.globalFlags name).1 ≠ 0) →
        ∀ names, names = past ++ programTargets p ++ programTargets q →
          (root₁.readProgram heap.globalFlags = some (programValue p) ↔ ProgramKept names p) ∧
          (root₂.readProgram heap.globalFlags = some (programValue q) ↔ ProgramKept names q) ∧
          (ProgramKept names p → ProgramKept names q → root₁ = root₂ →
            programValue p = programValue q) ∧
          (FewCollisions names →
            (ProgramKept names p ↔ ∀ name, SelectText.flag true name ∉ programSelects p))) := by
  obtain ⟨heap₀, hpast, hi₀⟩ := UseHeap.internAll_interned UseHeap.init_interned past
  rw [List.nil_append] at hi₀
  obtain ⟨heap₁, hp, hi₁⟩ := UseHeap.programDepend_built hi₀ p
  obtain ⟨heap, hq, hi⟩ := UseHeap.programDepend_built hi₁ q
  refine ⟨heap₀, heap₁, heap, _, _, hpast, hp, hq, fun hid names hnames => ?_⟩
  rw [← programBuilt_append (List.subset_append_right _ _) (programTargets q)]
  rw [← hnames] at hi ⊢
  have hpn : programTargets p ⊆ names := by
    rw [hnames]
    exact fun _ hm => List.mem_append_left _ (List.mem_append_right _ hm)
  have hqn : programTargets q ⊆ names := by
    rw [hnames]
    exact List.subset_append_right _ _
  have hne : ∀ name ∈ names, name ∈ programTargets p ++ programTargets q → idOf names name ≠ 0 := by
    intro name hm ht
    have hget := hid name ht
    rwa [hi.getId_mem hm] at hget
  have hreadp := readProgram_built_iff hi hpn
    (fun t ht => hne t (hpn ht) (List.mem_append_left _ ht))
  have hreadq := readProgram_built_iff hi hqn
    (fun t ht => hne t (hqn ht) (List.mem_append_right _ ht))
  refine ⟨hreadp, hreadq, fun hkp hkq hroot => ?_, fun hfew => programKept_iff_of_few hfew hpn⟩
  have hp' := hreadp.mpr hkp
  rw [hroot, hreadq.mpr hkq] at hp'
  exact (Option.some.inj hp').symm

def fooName : SelectName := ⟨"foo".toList, by decide, List.all_eq_true.mp (by decide)⟩

def barToken : AtomExpr where
  bangs := .nothing
  sign := .nothing
  token :=
    { id := 0, idFlag := 0, cachedHash := 0, category := "app".toList, name := "bar".toList
      key := "app/bar".toList, repository := none, slot := none, subSlot := none
      slotOpts := .ignore, range := .all, blocks := .none, version := none, useflags := [] }
  slot := none
  repository := none
  flags := none

/-- `foo? ( app/bar )`, with a bang or without. -/
def barIfFoo (negated : Bool) : DependExpr SelectName AtomExpr :=
  .single (.select (.flag negated fooName) (.single (.atom barToken)))

theorem barIfFoo_targets (negated : Bool) :
    programTargets (some (barIfFoo negated)) = [internedName negated "foo".toList] := by
  have hlex : (SelectText.flag negated fooName).lex.target =
      some (internedName negated "foo".toList) := by
    rw [SelectText.lex_flag]
    rfl
  have hsels : programSelects (some (barIfFoo negated)) = [.flag negated fooName] := rfl
  simp only [programTargets, hsels, targetsOf, List.filterMap_cons, hlex, List.filterMap_nil]

theorem barIfFoo_kept (negated : Bool) (names : List (List Char)) :
    ProgramKept names (some (barIfFoo negated)) ↔
      nameUnder names (internedName negated "foo".toList) = some "foo".toList := by
  simp [ProgramKept, programSelects, barIfFoo, DependExpr.selects, DependExprSingle.selects,
    SelectText.Kept, fooName]

theorem barIfFoo_id (negated : Bool) :
    idOf [internedName negated "foo".toList] (internedName negated "foo".toList) ≠ 0 := by
  cases negated <;> decide

theorem barIfFoo_built (negated : Bool) : ∃ heap,
    UseHeap.init.programDepend (some (barIfFoo negated)) = some (heap,
      programBuilt [internedName negated "foo".toList] (some (barIfFoo negated))) ∧
    Interned heap.globalFlags [internedName negated "foo".toList] := by
  have hbuilt := UseHeap.programDepend_built UseHeap.init_interned (some (barIfFoo negated))
  rwa [barIfFoo_targets, List.nil_append] at hbuilt

theorem read_group_atom (flags : Lut) (op : UseOperator) (cond : Nat) (a : Atom) :
    (DependTree.node op cond none (.node .disable 0 (some a) .null .null) .null).read flags =
      (readGroup flags op cond (.single (.atom a))).map .single := by
  simp only [DependTree.read, readSingle, DependTree.isNull, Option.bind_some, if_true]
  cases readGroup flags op cond (.single (.atom a)) <;> rfl

theorem programDepend_read_iff_bar : ∃ heap root,
    UseHeap.init.programDepend (some (barIfFoo false)) = some (heap, root) ∧
      root.readProgram heap.globalFlags = some (programValue (some (barIfFoo false))) := by
  obtain ⟨heap₀, heap₁, heap, root₁, root₂, hpast, hp, hq, hall⟩ :=
    programDepend_read_iff [] (some (barIfFoo false)) none
  obtain ⟨heap', hbuilt, hi⟩ := barIfFoo_built false
  obtain rfl : UseHeap.init = heap₀ := Option.some.inj hpast
  obtain rfl : heap₁ = heap := congrArg Prod.fst (Option.some.inj hq)
  obtain rfl : heap' = heap₁ := congrArg Prod.fst (Option.some.inj (hbuilt.symm.trans hp))
  have hid : ∀ name ∈ programTargets (some (barIfFoo false)) ++ programTargets none,
      (lutGetId heap'.globalFlags name).1 ≠ 0 := by
    intro name hm
    have hname : name = internedName false "foo".toList := by
      rw [barIfFoo_targets] at hm
      simpa [programTargets, programSelects, targetsOf] using hm
    rw [hname, hi.getId_mem (List.mem_singleton_self _)]
    exact barIfFoo_id false
  obtain ⟨hread, -⟩ := hall hid _ rfl
  refine ⟨heap', root₁, hp, hread.mpr ((barIfFoo_kept false _).mpr ?_)⟩
  rw [barIfFoo_targets]
  decide

/-- `!foo? ( app/bar )` comes back under the flag `foo?`. -/
theorem negated_flag_renamed : ∃ heap root,
    UseHeap.init.programDepend (some (barIfFoo true)) = some (heap, root) ∧
      (∀ name ∈ programTargets (some (barIfFoo true)), (lutGetId heap.globalFlags name).1 ≠ 0) ∧
      root.readProgram heap.globalFlags =
        some (some (.single (.select (.flag true "foo?".toList) (.single (.atom barToken.value))))) ∧
      root.readProgram heap.globalFlags ≠ some (programValue (some (barIfFoo true))) := by
  obtain ⟨heap, hbuilt, hi⟩ := barIfFoo_built true
  have hmem := List.mem_singleton_self (internedName true "foo".toList)
  refine ⟨heap, _, hbuilt, fun name hm => ?_, ?_, fun hread => ?_⟩
  · rw [barIfFoo_targets, List.mem_singleton] at hm
    rw [hm, hi.getId_mem hmem]
    exact barIfFoo_id true
  · have hgroup := readGroup_flag hi hmem (barIfFoo_id true) true (.single (.atom barToken.value))
    have htree : programBuilt [internedName true "foo".toList] (some (barIfFoo true)) =
        .node (flagOperator true) (conditionOf [internedName true "foo".toList]
          (some (internedName true "foo".toList))) none
            (.node .disable 0 (some barToken.value) .null .null) .null := by
      rw [programBuilt, barIfFoo, Option.map_some, Option.getD_some, DependExpr.built,
        DependExprSingle.built, SelectText.lex_flag]
      rfl
    have hname : nameUnder [internedName true "foo".toList] (internedName true "foo".toList) =
        some "foo?".toList := by decide
    rw [hname, Option.map_some] at hgroup
    rw [htree, DependTree.readProgram, if_neg (by simp [DependTree.isNull]), read_group_atom, hgroup]
    rfl
  · have hkept := (readProgram_built_iff hi (by rw [barIfFoo_targets]; exact List.Subset.refl _)
      (fun t ht => ?_)).mp hread
    · rw [barIfFoo_kept] at hkept
      exact absurd hkept (by decide)
    · rw [barIfFoo_targets, List.mem_singleton] at ht
      rw [ht]
      exact barIfFoo_id true

end AutoGentoo
