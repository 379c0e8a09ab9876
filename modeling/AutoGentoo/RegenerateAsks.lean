import AutoGentoo.RegenerateFrame
import AutoGentoo.SlotTables
import AutoGentoo.StatePoints

/-! The calls of `select_atom` that `regenerate` makes, the atoms of the expressions being
asked for one after the other. -/

namespace AutoGentoo

open StateExcept Emerge

/-- A call of `select_atom`, with the state it is made in and the list its answer goes to. -/
structure Ask where
  state : Emerge
  parent : Option Nat
  list : Fin 4
  atom : Atom

namespace Ask

/-- The call returns the object. -/
def Gives (select : Select) (q : Ask) (sel : Nat) : Prop :=
  ∃ t, select q.parent q.atom q.state = .ok (some sel, t)

def Returns (select : Select) (q : Ask) : Prop := ∃ r, select q.parent q.atom q.state = .ok r

/-- The entry that the answer makes. -/
def Enters (select : Select) (q : Ask) (p : Fin 4 × Generator) : Prop :=
  p.1 = q.list ∧ p.2.atom = q.atom ∧ q.Gives select p.2.sel

end Ask

section Asks

variable (select : Select)

def resolveSingleAsks (parent : Option Nat) (i : Fin 4) (atom : Option Atom) : Points Emerge Ask :=
  fun s q => ∃ a ∈ requestedAtom atom, q = { state := s, parent := parent, list := i, atom := a }

/-- The turn of `resolve_all`. -/
def resolveTurn (parent : Option Nat) (append : Generator → Resolution Unit) (useOperator : UseOperator)
    (useCondition : Nat) (atom : Option Atom) (children : DependTree) : Resolution Unit := do
  let resolved ← resolveSingle select parent useOperator useCondition atom children
  yieldTo append resolved

def resolveAllAsks (parent : Option Nat) (i : Fin 4) (append : Generator → Resolution Unit) :
    DependTree → Points Emerge Ask
  | .null => .none
  | .node useOperator useCondition atom children next =>
    (resolveSingleAsks parent i atom).andThen
      (resolveTurn select parent append useOperator useCondition atom children)
      fun _ => resolveAllAsks parent i append next

/-- What a refresh does before it comes to the expressions, which it returns. -/
def refreshStart (sel : Nat) : Resolution Metadata := do
  modifySel sel fun s => { s with generators := .empty }
  let selected ← getSel sel
  loadMetadata selected.ebuild
  flushUse sel
  let self ← get
  let metadata := self.metadata selected.ebuild
  hookRequiredUse sel metadata.requiredUse
  return metadata

def refreshLists (sel : Nat) (metadata : Metadata) : Resolution Unit :=
  DependencyContainer.indices.forM fun i =>
    resolveAll select (some sel) (appendGenerator sel i) (metadata.depTypes i)

def refreshAsks (sel : Nat) : Points Emerge Ask :=
  Points.after (refreshStart sel) fun metadata =>
    Points.along (fun i => resolveAll select (some sel) (appendGenerator sel i) (metadata.depTypes i))
      (fun i => resolveAllAsks select (some sel) i (appendGenerator sel i) (metadata.depTypes i))
      DependencyContainer.indices

def refreshIfDirtyAsks (sel : Nat) : Points Emerge Ask :=
  Points.after (getSel sel) fun selected => if selected.isDirty then refreshAsks select sel else .none

def getResolvedAsks (asks : Nat → Points Emerge Ask) (sel : Nat) : Points Emerge Ask := fun s q =>
  sel ∉ s.resolveSession ∧ asks sel { s with resolveSession := sel :: s.resolveSession } q

/-- The entries that `regenerate` goes through at the end. -/
def takeGenerators (sel : Nat) : Resolution (List (Fin 4 × Generator)) := do
  modifySel sel fun s => { s with resolvedDeps := .empty }
  let selected ← getSel sel
  return selected.generators.entries

def regenerateAsks : Nat → Nat → Points Emerge Ask
  | 0, _ => .none
  | fuel + 1, sel =>
    (refreshIfDirtyAsks select sel).andThen (refreshIfDirty select sel) fun _ =>
      Points.after (takeGenerators sel) fun entries =>
        Points.along (resolveGenerator (regenerate select fuel) sel)
          (fun p => getResolvedAsks (regenerateAsks fuel) p.2.sel) entries

end Asks

variable {select : Select}

theorem resolveAll_node (parent : Option Nat) (append : Generator → Resolution Unit)
    (useOperator : UseOperator) (useCondition : Nat) (atom : Option Atom) (children next : DependTree) :
    resolveAll select parent append (.node useOperator useCondition atom children next) =
      (do
        resolveTurn select parent append useOperator useCondition atom children
        resolveAll select parent append next) := by
  rw [resolveAll, resolveTurn, bind_assoc]

theorem refresh_eq (sel : Nat) : refresh select sel = (do
    let metadata ← refreshStart sel
    refreshLists select sel metadata
    modifySel sel fun s => { s with isDirty := false }) := by
  simp only [refresh, refreshStart, refreshLists, bind_assoc, pure_bind]

theorem regenerate_succ (fuel sel : Nat) : regenerate select (fuel + 1) sel = (do
    refreshIfDirty select sel
    let entries ← takeGenerators sel
    entries.forM (resolveGenerator (regenerate select fuel) sel)) := by
  simp only [regenerate, takeGenerators, bind_assoc, pure_bind]

/-! ### Ends -/

theorem modifySel_avoids (stop : Stop) (sel : Nat) (f : SelectedEbuild → SelectedEbuild) :
    Avoids stop (modifySel sel f) := by
  intro s t h
  have hp : ((.ok (), (modifySel sel f s).2) : Except Stop Unit × Emerge) = (.error stop, t) := h
  exact absurd (Prod.mk.inj hp).1 (by simp)

theorem loadMetadata_ends {stop : Stop} (hstop : stop.Fatal) (ebuild : Ebuild) :
    Avoids stop (loadMetadata ebuild) := by
  refine avoids_get.bind fun self => ?_
  split_ifs
  · exact avoids_pure _
  · intro s t h
    rw [initializeMetadata] at h
    split_ifs at h
    · exact absurd (Prod.mk.inj h).1 (by simp)
    · exact hstop _ (Except.error.inj (Prod.mk.inj h).1).symm

theorem refreshStart_ends {stop : Stop} (hstop : stop.Fatal) (sel : Nat) : Avoids stop (refreshStart sel) := by
  refine (modifySel_avoids stop sel _).bind fun _ => ?_
  refine ((getSel_useOnly sel sel).ends stop hstop).bind fun selected => ?_
  refine (loadMetadata_ends hstop _).bind fun _ => ?_
  refine ((flushUse_useOnly sel).ends stop hstop).bind fun _ => ?_
  refine avoids_get.bind fun self => ?_
  exact ((hookRequiredUse_useOnly sel _).ends stop hstop).bind fun _ => avoids_pure _

/-- What `resolve_single` does behind an answer. -/
theorem requireUses_ends {stop : Stop} (hstop : stop.Fatal) (atom : Atom) (found : Option Nat) :
    Avoids stop (match found with
      | none => if atom.useflags = [] then return none else throw (.raised .attributeError)
      | some sel => do
        atom.useflags.forM (requireUse sel)
        return some { atom := atom, sel := sel } : Resolution (Option Generator)) := by
  cases found with
  | none =>
    simp only
    split_ifs
    · exact avoids_pure _
    · exact avoids_throw (hstop _).symm
  | some sel =>
    have huse : UseOnly sel (atom.useflags.forM (requireUse sel)) :=
      UseOnly.forM fun use _ => requireUse_useOnly sel use
    exact (huse.ends stop hstop).bind fun _ => avoids_pure _

/-- The call ends so. -/
def Ask.Stops (select : Select) (stop : Stop) (q : Ask) : Prop :=
  select q.parent q.atom q.state = .error stop

theorem ofCall_error {α : Type} {c : Call α} {s : Emerge} {stop : Stop} :
    (∃ t, ofCall c s = (.error stop, t)) ↔ c s = .error stop := by
  rw [ofCall]
  cases c s with
  | error e =>
    constructor
    · rintro ⟨t, h⟩
      rw [Except.error.inj (Prod.mk.inj h).1]
    · intro h
      exact ⟨s, by rw [Except.error.inj h]⟩
  | ok r =>
    constructor
    · rintro ⟨t, h⟩
      exact absurd (Prod.mk.inj h).1 (by simp)
    · intro h
      exact absurd h (by simp)

theorem resolveAtom_blames {stop : Stop} (hstop : stop.Fatal) (parent : Option Nat) (i : Fin 4) (atom : Atom) :
    Blames stop (Ask.Stops select stop) (resolveAtom select parent atom)
      fun s q => q = { state := s, parent := parent, list := i, atom := atom } := by
  refine Blames.bind_avoids (fun s => ?_) (requireUses_ends hstop atom)
  rw [exists_eq_left, ofCall_error]
  rfl

theorem resolveSingle_blames {stop : Stop} (hstop : stop.Fatal) (parent : Option Nat) (i : Fin 4)
    (useOperator : UseOperator) (useCondition : Nat) (atom : Option Atom) (children : DependTree) :
    Blames stop (Ask.Stops select stop) (resolveSingle select parent useOperator useCondition atom children)
      (resolveSingleAsks parent i atom) := by
  cases atom with
  | none =>
    refine Blames.congr (Avoids.blames ?_) fun s q => by simp [resolveSingleAsks, requestedAtom, Points.none]
    cases parent with
    | none => exact avoids_throw (hstop _).symm
    | some parent =>
      exact ((resolveCondition_useOnly parent _ _ _).ends stop hstop).bind fun _ => avoids_pure _
  | some atom =>
    simp only [resolveSingle]
    by_cases hb : atom.blocks = .none
    · rw [if_neg (not_not.mpr hb)]
      exact (resolveAtom_blames hstop parent i atom).congr fun s q => by
        simp [resolveSingleAsks, requestedAtom, hb]
    · rw [if_pos hb]
      refine Blames.congr (Avoids.blames ?_) fun s q => by
        simp [resolveSingleAsks, requestedAtom, hb, Points.none]
      exact ((addBlock_useOnly 0 atom).ends stop hstop).bind fun _ => avoids_pure _

theorem resolveAll_blames {stop : Stop} (hstop : stop.Fatal) (parent : Option Nat) (i : Fin 4)
    {append : Generator → Resolution Unit} (happend : ∀ dep, Avoids stop (append dep)) (expression : DependTree) :
    Blames stop (Ask.Stops select stop) (resolveAll select parent append expression)
      (resolveAllAsks select parent i append expression) := by
  induction expression with
  | null => exact (avoids_pure _).blames
  | node useOperator useCondition atom children next _ ih =>
    rw [resolveAll_node]
    refine Blames.bind (Blames.bind_avoids (resolveSingle_blames hstop parent i _ _ _ _) fun resolved => ?_)
      fun _ => ih
    cases resolved with
    | none => exact avoids_pure _
    | some dep => exact happend dep

theorem refresh_blames {stop : Stop} (hstop : stop.Fatal) (sel : Nat) :
    Blames stop (Ask.Stops select stop) (refresh select sel) (refreshAsks select sel) := by
  rw [refresh_eq]
  refine Blames.bind_after (refreshStart_ends hstop sel) fun metadata => ?_
  refine Blames.bind_avoids (Blames.forM fun i => ?_) fun _ => modifySel_avoids stop sel _
  exact resolveAll_blames hstop (some sel) i (fun _ => modifySel_avoids stop sel _) _

theorem refreshIfDirty_blames {stop : Stop} (hstop : stop.Fatal) (sel : Nat) :
    Blames stop (Ask.Stops select stop) (refreshIfDirty select sel) (refreshIfDirtyAsks select sel) := by
  refine Blames.bind_after ((getSel_useOnly sel sel).ends stop hstop) fun selected => ?_
  split_ifs
  · exact refresh_blames hstop sel
  · exact (avoids_pure _).blames

theorem getResolved_blames {stop : Stop} {regenerate : Nat → Resolution Unit} {asks : Nat → Points Emerge Ask}
    (h : ∀ sel, Blames stop (Ask.Stops select stop) (regenerate sel) (asks sel)) (sel : Nat) :
    Blames stop (Ask.Stops select stop) (getResolved regenerate sel) (getResolvedAsks asks sel) := by
  intro s
  by_cases hmem : sel ∈ s.resolveSession
  · rw [getResolved_of_mem _ hmem]
    refine iff_of_false (fun ⟨t, h⟩ => ?_) fun ⟨_, hq, _⟩ => hq.1 hmem
    exact absurd (Prod.mk.inj h).1 (by simp)
  · rw [getResolved_of_notMem _ hmem, h sel]
    exact exists_congr fun q => and_congr_left' (and_iff_right hmem).symm

/-- The process ends just where one of the calls of `select_atom` ends it. -/
theorem regenerate_blames (fuel sel : Nat) :
    Blames .aborted (Ask.Stops select .aborted) (regenerate select fuel sel) (regenerateAsks select fuel sel) := by
  induction fuel generalizing sel with
  | zero => exact (avoids_throw (by simp)).blames
  | succ fuel ih =>
    rw [regenerate_succ]
    refine (refreshIfDirty_blames fatal_aborted sel).bind fun _ => ?_
    refine Blames.bind_after ?_ fun entries => Blames.forM fun p => ?_
    · refine (modifySel_avoids _ sel _).bind fun _ => ?_
      exact ((getSel_useOnly sel sel).ends _ fatal_aborted).bind fun _ => avoids_pure _
    · exact (getResolved_blames ih p.2.sel).bind_avoids fun _ => modifySel_avoids _ sel _

/-! ### Answers -/

namespace Emerge

theorem generators_of_deps {sel : Nat} {s t : Emerge}
    (h : ∀ d, s.deps sel = some d → t.deps sel = some d) {selected : SelectedEbuild}
    (hs : s.selected[sel]? = some selected) : ∃ selected', t.selected[sel]? = some selected' ∧
      selected'.generators = selected.generators ∧ selected'.resolvedDeps = selected.resolvedDeps := by
  have hd : t.deps sel = some (selected.generators, selected.resolvedDeps) :=
    h _ (Option.map_eq_some_iff.mpr ⟨selected, hs, rfl⟩)
  obtain ⟨selected', hs', he⟩ := Option.map_eq_some_iff.mp hd
  exact ⟨selected', hs', (Prod.mk.inj he).1, (Prod.mk.inj he).2⟩

theorem SelectEffect.session {s t : Emerge} {parent : Option Nat} {atom : Atom}
    (h : SelectEffect s parent atom t) : t.resolveSession = s.resolveSession := by
  cases h <;> rfl

theorem SelectEffect.deps {s t : Emerge} {parent : Option Nat} {atom : Atom}
    (h : SelectEffect s parent atom t) {sel : Nat}
    {d : DependencyContainer Generator × DependencyContainer Generator} (hd : s.deps sel = some d) :
    t.deps sel = some d := by
  obtain ⟨selected, hs, rfl⟩ := Option.map_eq_some_iff.mp hd
  have hlt := (List.getElem?_eq_some_iff.mp hs).1
  cases h with
  | same => exact hd
  | first | slot => exact Option.map_eq_some_iff.mpr ⟨selected, by rw [created, List.getElem?_append_left hlt, hs], rfl⟩
  | @changed sel' selected' hs' candidate =>
    by_cases hne : sel' = sel
    · subst hne
      obtain rfl := Option.some.inj (hs'.symm.trans hs)
      rw [Emerge.deps, Emerge.changed, List.getElem?_set_self hlt]
      rfl
    · rw [Emerge.deps, Emerge.changed, List.getElem?_set_ne hne, hs]
      rfl

end Emerge

theorem ofCall_state {α : Type} (c : Call α) (s : Emerge) :
    (ofCall c s).2 = s ∨ ∃ a t, c s = .ok (a, t) ∧ (ofCall c s).2 = t := by
  rw [ofCall]
  cases c s with
  | error e => exact .inl rfl
  | ok r => exact .inr ⟨r.1, r.2, rfl, rfl⟩

theorem ofCall_ok {α : Type} {c : Call α} {s t : Emerge} {a : α} :
    ofCall c s = (.ok a, t) ↔ c s = .ok (a, t) := by
  rw [ofCall]
  cases c s with
  | error e =>
    constructor
    · intro h
      exact absurd (Prod.mk.inj h).1 (by simp)
    · intro h
      exact absurd h (by simp)
  | ok r =>
    constructor
    · intro h
      obtain ⟨h1, rfl⟩ := Prod.mk.inj h
      rw [← Except.ok.inj h1]
    · intro h
      rw [Except.ok.inj h]

/-- What `resolve_single` yields is the answer to the call that it makes. -/
theorem resolveSingle_some {parent : Option Nat} (i : Fin 4) {useOperator : UseOperator} {useCondition : Nat}
    {atom : Option Atom} {children : DependTree} {s t : Emerge} {g : Generator}
    (h : resolveSingle select parent useOperator useCondition atom children s = (.ok (some g), t)) :
    ∃ q, resolveSingleAsks parent i atom s q ∧ q.parent = parent ∧ q.Enters select (i, g) := by
  cases atom with
  | none =>
    cases parent with
    | none => exact absurd h throw_ok
    | some parent =>
      obtain ⟨_, u, -, hr⟩ := bind_ok.mp h
      exact absurd (pure_ok.mp hr).1 (by simp)
  | some atom =>
    simp only [resolveSingle] at h
    by_cases hb : atom.blocks = .none
    · rw [if_neg (not_not.mpr hb)] at h
      obtain ⟨found, u, hselect, hrest⟩ := bind_ok.mp h
      refine ⟨{ state := s, parent := parent, list := i, atom := atom },
        ⟨atom, by simp [requestedAtom, hb], rfl⟩, rfl, rfl, ?_⟩
      cases found with
      | none =>
        simp only at hrest
        split_ifs at hrest
        · exact absurd (pure_ok.mp hrest).1 (by simp)
        · exact absurd hrest throw_ok
      | some sel =>
        obtain ⟨_, v, -, hr⟩ := bind_ok.mp hrest
        obtain rfl := Option.some.inj (pure_ok.mp hr).1
        exact ⟨rfl, u, ofCall_ok.mp hselect⟩
    · rw [if_pos hb] at h
      obtain ⟨_, u, -, hr⟩ := bind_ok.mp h
      exact absurd (pure_ok.mp hr).1 (by simp)

namespace Emerge

/-- The object has the entry among its generators. -/
def HasEntry (self : Emerge) (x : Nat × Fin 4 × Generator) : Prop :=
  ∃ selected, self.selected[x.1]? = some selected ∧ x.2.2 ∈ selected.generators.getItem x.2.1

theorem hasEntry_of_deps {s t : Emerge} (h : ∀ sel, t.deps sel = s.deps sel) (x : Nat × Fin 4 × Generator)
    (hx : t.HasEntry x) : s.HasEntry x := by
  obtain ⟨selected, ht, hmem⟩ := hx
  obtain ⟨selected', hs, hgen, -⟩ := generators_of_deps (fun d hd => (h x.1).symm.trans hd) ht
  exact ⟨selected', hs, hgen.symm ▸ hmem⟩

theorem SelectEffect.hasEntry {s t : Emerge} {parent : Option Nat} {atom : Atom}
    (h : SelectEffect s parent atom t) {x : Nat × Fin 4 × Generator} (hx : t.HasEntry x) : s.HasEntry x := by
  obtain ⟨selected, ht, hmem⟩ := hx
  by_cases hlt : x.1 < s.selected.length
  · have hs : s.selected[x.1]? = some s.selected[x.1] := List.getElem?_eq_getElem hlt
    have hdeps : t.deps x.1 = some (s.selected[x.1].generators, s.selected[x.1].resolvedDeps) :=
      h.deps (Option.map_eq_some_iff.mpr ⟨_, hs, rfl⟩)
    obtain ⟨selected', ht', he⟩ := Option.map_eq_some_iff.mp hdeps
    obtain rfl := Option.some.inj (ht.symm.trans ht')
    exact ⟨_, hs, (Prod.mk.inj he).1 ▸ hmem⟩
  · -- an object that has just been made has no generators
    have hnew : ∀ (key : List Char) (pkg : InstallPackage) (ebuild : Ebuild),
        t = s.created key pkg parent atom ebuild → False := by
      rintro key pkg ebuild rfl
      have hat : (s.selected ++ [SelectedEbuild.init parent atom ebuild])[x.1]? = some selected := ht
      rw [List.getElem?_append_right (Nat.le_of_not_lt hlt), List.getElem?_singleton] at hat
      split_ifs at hat
      obtain rfl := Option.some.inj hat
      exact absurd hmem (by rw [SelectedEbuild.init, DependencyContainer.getItem_empty]; exact List.not_mem_nil)
    have hsame : ∀ {sel : Nat} {a : SelectedEbuild}, (s.selected.set sel a)[x.1]? ≠ some selected := by
      intro sel a
      rw [List.getElem?_eq_none (by rw [List.length_set]; exact Nat.le_of_not_lt hlt)]
      exact Option.some_ne_none selected |>.symm
    cases h with
    | same => exact absurd (List.getElem?_eq_some_iff.mp ht).1 hlt
    | first | slot => exact (hnew _ _ _ rfl).elim
    | changed => exact absurd ht hsame

end Emerge

/-! ### Entries -/

section Gains

variable {loop : ForLoop}

/-- The call gives the object of its parent the entry. -/
def Ask.Answers (select : Select) (q : Ask) (x : Nat × Fin 4 × Generator) : Prop :=
  q.parent = some x.1 ∧ q.Enters select x.2

/-- The entries of the generators are answers to the calls. -/
abbrev Entered (loop : ForLoop) {α : Type} (c : Resolution α) (asks : Points Emerge Ask) : Prop :=
  Gains Emerge.HasEntry (Ask.Answers (selectAtomOver loop)) c asks

theorem entered_use {α : Type} {sel : Nat} {c : Resolution α} (h : UseOnly sel c) :
    Entered loop c Points.none :=
  (h.same.mono fun _ _ hsame x => hasEntry_of_deps (fun sel => (hsame.deps sel).symm) x).gains

theorem entered_pure {α : Type} (a : α) : Entered loop (pure a) Points.none := fun _ _ hx => .inl hx

/-- A change of an object that gives its generators no entry. -/
theorem entered_modifySel (sel : Nat) {f : SelectedEbuild → SelectedEbuild}
    (h : ∀ s i, ∀ g ∈ (f s).generators.getItem i, g ∈ s.generators.getItem i) :
    Entered loop (modifySel sel f) Points.none := by
  refine Respects.gains fun s x hx => ?_
  obtain ⟨selected, hat, hmem⟩ := hx
  by_cases hsel : sel = x.1
  · rw [hsel, modifySel_self] at hat
    obtain ⟨selected', hs, rfl⟩ := Option.map_eq_some_iff.mp hat
    exact ⟨selected', hs, h selected' _ _ hmem⟩
  · rw [modifySel_ne hsel] at hat
    exact ⟨selected, hat, hmem⟩

theorem entered_loadMetadata (ebuild : Ebuild) : Entered loop (loadMetadata ebuild) Points.none := by
  have hkeep : Respects (fun s t : Emerge => ∀ x, t.HasEntry x → s.HasEntry x) (loadMetadata ebuild) := by
    refine Respects.bind (fun _ _ _ h h' x hx => h x (h' x hx)) (respects_get fun _ _ => id) fun self => ?_
    split_ifs
    · exact respects_pure (fun _ _ => id) _
    · exact fun _ _ => id
  exact hkeep.gains

theorem entered_refreshStart (sel : Nat) : Entered loop (refreshStart sel) Points.none := by
  refine (entered_modifySel sel fun s i g hg => ?_).bind_respects fun _ => ?_
  · rw [DependencyContainer.getItem_empty] at hg
    exact absurd hg List.not_mem_nil
  refine (entered_use (getSel_useOnly sel sel)).bind_respects fun selected => ?_
  refine (entered_loadMetadata _).bind_respects fun _ => ?_
  refine (entered_use (flushUse_useOnly sel)).bind_respects fun _ => ?_
  refine Gains.bind_respects (fun _ _ => .inl) fun self => ?_
  exact (entered_use (hookRequiredUse_useOnly sel _)).bind_respects fun _ => entered_pure _

theorem entered_resolveSingle (parent : Option Nat) (useOperator : UseOperator) (useCondition : Nat)
    (atom : Option Atom) (children : DependTree) : Entered loop
      (resolveSingle (selectAtomOver loop) parent useOperator useCondition atom children) Points.none := by
  cases atom with
  | none =>
    cases parent with
    | none => exact fun _ _ => .inl
    | some parent =>
      exact (entered_use (resolveCondition_useOnly parent _ _ _)).bind_respects fun _ => entered_pure _
  | some atom =>
    simp only [resolveSingle]
    split_ifs
    · exact (entered_use (addBlock_useOnly 0 atom)).bind_respects fun _ => entered_pure _
    · refine Gains.bind_respects (fun s x hx => .inl ?_) fun found => ?_
      · rcases ofCall_state (selectAtomOver loop parent atom) s with he | ⟨a, t, h, he⟩
        · exact he ▸ hx
        · exact (selectAtomOver_effect h).hasEntry (he ▸ hx)
      · cases found with
        | none =>
          simp only
          split_ifs
          · exact entered_pure _
          · exact fun _ _ => .inl
        | some sel =>
          have huse : UseOnly sel (atom.useflags.forM (requireUse sel)) :=
            UseOnly.forM fun use _ => requireUse_useOnly sel use
          exact (entered_use huse).bind_respects fun _ => entered_pure _

theorem hasEntry_appendGenerator {sel : Nat} {i : Fin 4} {g : Generator} {s : Emerge}
    {x : Nat × Fin 4 × Generator} (hx : (appendGenerator sel i g s).2.HasEntry x) :
    s.HasEntry x ∨ x = (sel, i, g) := by
  obtain ⟨z, j, g'⟩ := x
  obtain ⟨selected, hat, hmem⟩ := hx
  by_cases hsel : sel = z
  · subst hsel
    rw [appendGenerator, modifySel_self] at hat
    obtain ⟨selected', hs, rfl⟩ := Option.map_eq_some_iff.mp hat
    simp only [DependencyContainer.getItem_append] at hmem
    split_ifs at hmem with hi
    · subst hi
      rcases List.mem_append.mp hmem with hmem | hmem
      · exact .inl ⟨selected', hs, hmem⟩
      · exact .inr (by rw [List.mem_singleton.mp hmem])
    · exact .inl ⟨selected', hs, hmem⟩
  · rw [appendGenerator, modifySel_ne hsel] at hat
    exact .inl ⟨selected, hat, hmem⟩

theorem entered_resolveTurn (sel : Nat) (i : Fin 4) (useOperator : UseOperator) (useCondition : Nat)
    (atom : Option Atom) (children : DependTree) : Entered loop
      (resolveTurn (selectAtomOver loop) (some sel) (appendGenerator sel i) useOperator useCondition atom children)
      (resolveSingleAsks (some sel) i atom) := by
  intro s x hx
  have hsingle (x) := @entered_resolveSingle loop (some sel) useOperator useCondition atom children s x
  rcases bind_run (resolveSingle (selectAtomOver loop) (some sel) useOperator useCondition atom children)
    (yieldTo (appendGenerator sel i)) s with ⟨r, t, hr, hb⟩ | ⟨e, t, he, hb⟩
  · rw [resolveTurn, hb] at hx
    rw [hr] at hsingle
    have hkept {x} (hx : t.HasEntry x) : s.HasEntry x := (hsingle x hx).resolve_right fun ⟨_, h, _⟩ => h
    cases r with
    | none => exact .inl (hkept hx)
    | some g =>
      rcases hasEntry_appendGenerator hx with hx | rfl
      · exact .inl (hkept hx)
      · obtain ⟨q, hq, hparent, henters⟩ := resolveSingle_some i hr
        exact .inr ⟨q, hq, hparent, henters⟩
  · rw [resolveTurn, hb] at hx
    rw [he] at hsingle
    exact .inl ((hsingle x hx).resolve_right fun ⟨_, h, _⟩ => h)

theorem entered_resolveAll (sel : Nat) (i : Fin 4) (expression : DependTree) : Entered loop
    (resolveAll (selectAtomOver loop) (some sel) (appendGenerator sel i) expression)
    (resolveAllAsks (selectAtomOver loop) (some sel) i (appendGenerator sel i) expression) := by
  induction expression with
  | null => exact entered_pure _
  | node useOperator useCondition atom children next _ ih =>
    rw [resolveAll_node]
    exact (entered_resolveTurn sel i _ _ _ _).bind fun _ => ih

theorem entered_refreshIfDirty (sel : Nat) : Entered loop (refreshIfDirty (selectAtomOver loop) sel)
    (refreshIfDirtyAsks (selectAtomOver loop) sel) := by
  refine Gains.bind_after (entered_use (getSel_useOnly sel sel)) fun selected => ?_
  split_ifs
  · rw [refresh_eq]
    refine Gains.bind_after (entered_refreshStart sel) fun metadata => ?_
    refine Gains.bind_respects (Gains.forM fun i => entered_resolveAll sel i _) fun _ => ?_
    exact entered_modifySel sel fun _ _ _ hg => hg
  · exact entered_pure _

theorem entered_getResolved {regenerate : Nat → Resolution Unit} {asks : Nat → Points Emerge Ask}
    (h : ∀ sel, Entered loop (regenerate sel) (asks sel)) (sel : Nat) :
    Entered loop (getResolved regenerate sel) (getResolvedAsks asks sel) := by
  intro s x hx
  by_cases hmem : sel ∈ s.resolveSession
  · rw [getResolved_of_mem _ hmem] at hx
    exact .inl hx
  · rw [getResolved_of_notMem _ hmem] at hx
    rcases h sel _ x hx with hx | ⟨q, hq, hanswers⟩
    · exact .inl hx
    · exact .inr ⟨q, ⟨hmem, hq⟩, hanswers⟩

theorem entered_regenerate (fuel sel : Nat) : Entered loop (regenerate (selectAtomOver loop) fuel sel)
    (regenerateAsks (selectAtomOver loop) fuel sel) := by
  induction fuel generalizing sel with
  | zero => exact fun _ _ => .inl
  | succ fuel ih =>
    rw [regenerate_succ]
    refine (entered_refreshIfDirty sel).bind fun _ => ?_
    refine Gains.bind_after ?_ fun entries => Gains.forM fun p => ?_
    · rw [takeGenerators]
      refine Gains.bind_respects (entered_modifySel sel ?_) fun _ => ?_
      · exact fun _ _ _ hg => hg
      exact (entered_use (getSel_useOnly sel sel)).bind_respects fun _ => entered_pure _
    · exact (entered_getResolved ih p.2.sel).bind_respects fun _ => entered_modifySel sel fun _ _ _ hg => hg

/-! ### Runs -/

/-- Those that a call from outside makes for the expressions of objects. -/
def EmergeCall.asks (loop : ForLoop) : EmergeCall → Points Emerge Ask
  | .regenerate fuel sel => regenerateAsks (selectAtomOver loop) fuel sel
  | .getResolved fuel sel => getResolvedAsks (regenerateAsks (selectAtomOver loop) fuel) sel
  | .addBlock _ | .selectAtom _ _ | .changeWithinSlot _ _ => .none

/-- Those of all calls of a run. -/
def runAsks (loop : ForLoop) : List EmergeCall → Points Emerge Ask
  | [], _, _ => False
  | call :: calls, s, q => call.asks loop s q ∨ runAsks loop calls (call.step loop s) q

theorem EmergeCall.entered (call : EmergeCall) : Entered loop (call.perform loop) (call.asks loop) := by
  cases call with
  | addBlock atom => exact entered_use (addBlock_useOnly 0 atom)
  | selectAtom parent atom =>
    refine Gains.bind_respects (fun s x hx => .inl ?_) fun _ => entered_pure _
    rcases ofCall_state (selectAtomOver loop parent atom) s with he | ⟨a, t, h, he⟩
    · exact he ▸ hx
    · exact (selectAtomOver_effect h).hasEntry (he ▸ hx)
  | changeWithinSlot sel atom =>
    refine Gains.bind_respects (fun s x hx => .inl ?_) fun _ => entered_pure _
    rcases ofCall_state (changeWithinSlotOver loop sel atom) s with he | ⟨a, t, h, he⟩
    · exact he ▸ hx
    · rcases changeWithinSlotOver_ok h with rfl | ⟨selected, candidate, hs, rfl⟩
      · exact he ▸ hx
      · exact (show SelectEffect s none atom _ from .changed hs candidate).hasEntry (he ▸ hx)
  | regenerate fuel sel => exact entered_regenerate fuel sel
  | getResolved fuel sel => exact entered_getResolved (fun z => entered_regenerate fuel z) sel

/-- What an object has among its generators is an answer that it got in the run, or was there at first. -/
theorem run_entered (calls : List EmergeCall) {start : Emerge} {x : Nat × Fin 4 × Generator}
    (hx : (calls.foldl (EmergeCall.step loop) start).HasEntry x) :
    start.HasEntry x ∨ ∃ q, runAsks loop calls start q ∧ q.Answers (selectAtomOver loop) x := by
  induction calls generalizing start with
  | nil => exact .inl hx
  | cons call calls ih =>
    rcases ih hx with hx | ⟨q, hq, hanswers⟩
    · rcases call.entered start x hx with hx | ⟨q, hq, hanswers⟩
      · exact .inl hx
      · exact .inr ⟨q, .inl hq, hanswers⟩
    · exact .inr ⟨q, .inr hq, hanswers⟩

end Gains

end AutoGentoo
