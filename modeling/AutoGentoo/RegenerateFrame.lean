import AutoGentoo.DependencyAtoms
import AutoGentoo.EmergeSelection
import AutoGentoo.StateExcept

/-! What the parts of `regenerate` leave as it was. -/

namespace AutoGentoo

open StateExcept

/-- A selected ebuild without its flags and hooks. -/
def SelectedEbuild.settled (self : SelectedEbuild) : SelectedEbuild :=
  { self with useflags := [], useFlagHooks := [], globalFlagHooks := [], flags := [], isDirty := true }

namespace Emerge

def settled (self : Emerge) : Emerge :=
  { self with selected := self.selected.map SelectedEbuild.settled, blocks := [] }

/-- Only flags, hooks and blocks differ. -/
def SameButUse (self other : Emerge) : Prop := self.settled = other.settled

/-- The lists of dependencies of the object at an address. -/
def deps (self : Emerge) (sel : Nat) :
    Option (DependencyContainer Generator × DependencyContainer Generator) :=
  (self.selected[sel]?).map fun s => (s.generators, s.resolvedDeps)

theorem SameButUse.selection {self other : Emerge} (h : SameButUse self other) :
    self.selection = other.selection := by
  have hs : ∀ e : Emerge, e.selection = e.settled.selection := by
    intro e
    simp only [Emerge.selection, settled, List.map_map]
    rfl
  rw [hs self, hs other, h]

theorem SameButUse.deps {self other : Emerge} (h : SameButUse self other) (sel : Nat) :
    self.deps sel = other.deps sel := by
  have hs : ∀ e : Emerge, e.deps sel = e.settled.deps sel := by
    intro e
    simp only [Emerge.deps, settled, List.getElem?_map, Option.map_map]
    rfl
  rw [hs self, hs other, h]

theorem SameButUse.resolveSession {self other : Emerge} (h : SameButUse self other) :
    self.resolveSession = other.resolveSession := by
  have hs : self.settled.resolveSession = other.settled.resolveSession := by rw [h]
  exact hs

theorem SameButUse.metadata {self other : Emerge} (h : SameButUse self other) (ebuild : Ebuild) :
    self.metadata ebuild = other.metadata ebuild := by
  have hs : self.settled.metadata ebuild = other.settled.metadata ebuild := by rw [h]
  exact hs

theorem sameButUse_refl (self : Emerge) : SameButUse self self := rfl

theorem sameButUse_trans (a b c : Emerge) (h : SameButUse a b) (h' : SameButUse b c) :
    SameButUse a c := h.trans h'

end Emerge

open Emerge

theorem map_modify_of_eq {α β : Type*} {f : α → α} {g : α → β} (h : ∀ a, g (f a) = g a)
    (l : List α) (i : Nat) : (l.modify i f).map g = l.map g := by
  apply List.ext_getElem?
  intro j
  rw [List.getElem?_map, List.getElem?_map, List.getElem?_modify]
  cases l[j]? with
  | none => rfl
  | some a =>
    by_cases hij : i = j
    · simp [hij, h]
    · simp [hij]

/-- Flags and hooks of one object differ, and blocks. -/
def Emerge.OnlyUseOf (sel : Nat) (s t : Emerge) : Prop :=
  SameButUse s t ∧ ∀ z, z ≠ sel → t.selected[z]? = s.selected[z]?

theorem onlyUseOf_refl {sel : Nat} (s : Emerge) : OnlyUseOf sel s s := ⟨rfl, fun _ _ => rfl⟩

theorem onlyUseOf_trans {sel : Nat} (s t r : Emerge) (h : OnlyUseOf sel s t)
    (h' : OnlyUseOf sel t r) : OnlyUseOf sel s r :=
  ⟨h.1.trans h'.1, fun z hz => (h'.2 z hz).trans (h.2 z hz)⟩

/-- The call neither returns nor raises. -/
def Stop.Fatal (stop : Stop) : Prop := ∀ e, stop ≠ .raised e

theorem fatal_diverged : Stop.diverged.Fatal := fun _ h => by cases h

theorem fatal_aborted : Stop.aborted.Fatal := fun _ h => by cases h

/-- A call that only changes flags and hooks of one object, and returns or raises. -/
structure UseOnly (sel : Nat) {α : Type} (c : Resolution α) : Prop where
  only : Respects (OnlyUseOf sel) c
  ends : ∀ stop : Stop, stop.Fatal → Avoids stop c

theorem modifySel_self (sel : Nat) (f : SelectedEbuild → SelectedEbuild) (s : Emerge) :
    (modifySel sel f s).2.selected[sel]? = (s.selected[sel]?).map f := by
  rw [modifySel, List.getElem?_modify]
  simp

theorem modifySel_ne {sel sel' : Nat} (h : sel ≠ sel') (f : SelectedEbuild → SelectedEbuild)
    (s : Emerge) : (modifySel sel f s).2.selected[sel']? = s.selected[sel']? := by
  rw [modifySel, List.getElem?_modify]
  simp [h]

theorem modifySel_useOnly (sel : Nat) (f : SelectedEbuild → SelectedEbuild)
    (hf : ∀ s, (f s).settled = s.settled) : UseOnly sel (modifySel sel f) where
  only s := by
    refine ⟨?_, fun z hz => modifySel_ne hz.symm f s⟩
    simp only [SameButUse, modifySel, settled, map_modify_of_eq hf]
  ends _ _ s t h :=
    absurd (Prod.mk.inj (show ((.ok (), _) : Except Stop Unit × Emerge) = _ from h)).1 (by simp)

theorem modifySel_ok {sel : Nat} {f : SelectedEbuild → SelectedEbuild} {s t : Emerge} {a : Unit}
    (h : modifySel sel f s = (.ok a, t)) : t.selected[sel]? = (s.selected[sel]?).map f ∧
      t.resolveSession = s.resolveSession := by
  obtain rfl : (modifySel sel f s).2 = t := by rw [h]
  exact ⟨modifySel_self sel f s, rfl⟩

/-- What `regenerate` begins with. -/
def SelectedEbuild.cleared (self : SelectedEbuild) : SelectedEbuild := { self with generators := .empty }

namespace Emerge

/-- One of the objects changed. -/
def atSel (self : Emerge) (sel : Nat) (f : SelectedEbuild → SelectedEbuild) : Emerge :=
  { self with selected := self.selected.modify sel f }

theorem atSel_self (self : Emerge) (sel : Nat) (f : SelectedEbuild → SelectedEbuild) :
    (self.atSel sel f).selected[sel]? = (self.selected[sel]?).map f := modifySel_self sel f self

theorem atSel_atSel (self : Emerge) (sel : Nat) (f g : SelectedEbuild → SelectedEbuild) :
    (self.atSel sel f).atSel sel g = self.atSel sel (g ∘ f) := by
  simp only [atSel, List.modify_modify_eq]

theorem atSel_congr {self : Emerge} {sel : Nat} {selected : SelectedEbuild}
    {f g : SelectedEbuild → SelectedEbuild} (h : self.selected[sel]? = some selected)
    (hf : f selected = g selected) : self.atSel sel f = self.atSel sel g := by
  have hlist : self.selected.modify sel f = self.selected.modify sel g := by
    apply List.ext_getElem?
    intro i
    rw [List.getElem?_modify, List.getElem?_modify]
    by_cases hi : sel = i
    · simp [← hi, h, hf]
    · simp [hi]
  rw [atSel, atSel, hlist]

theorem atSel_id (self : Emerge) (sel : Nat) : self.atSel sel id = self := by
  rw [atSel, List.modify_id]

end Emerge

theorem cleared_get {s : Emerge} {sel : Nat} {selected : SelectedEbuild} (hs : s.selected[sel]? = some selected) :
    (s.atSel sel SelectedEbuild.cleared).selected[sel]? = some selected.cleared := by
  rw [atSel_self, hs]
  rfl

theorem modifySel_selection (sel : Nat) {f : SelectedEbuild → SelectedEbuild}
    (hf : ∀ s, (f s).bare = s.bare) (s : Emerge) : (modifySel sel f s).2.selection = s.selection := by
  simp only [Emerge.selection, modifySel, map_modify_of_eq hf]

theorem setHooks_settled (s : SelectedEbuild) (name : Option (List Char)) (hooks : List Hookable) :
    (s.setHooks name hooks).settled = s.settled := by
  cases name <;> rfl

theorem getSel_state (sel : Nat) (s : Emerge) : (getSel sel s).2 = s := by
  rw [getSel]
  split <;> rfl

theorem getSel_ok {sel : Nat} {s t : Emerge} {a : SelectedEbuild} :
    getSel sel s = (.ok a, t) ↔ s.selected[sel]? = some a ∧ t = s := by
  rw [getSel]
  cases h : s.selected[sel]? with
  | some selected =>
    constructor
    · intro he
      obtain ⟨h1, rfl⟩ := Prod.mk.inj he
      exact ⟨congrArg some (Except.ok.inj h1), rfl⟩
    · rintro ⟨ha, rfl⟩
      rw [Option.some.inj ha]
  | none =>
    constructor
    · intro he
      exact absurd (Prod.mk.inj he).1 (by simp)
    · rintro ⟨ha, -⟩
      exact absurd ha (by simp)

namespace UseOnly

variable {sel : Nat}

theorem bind {α β : Type} {c : Resolution α} {f : α → Resolution β} (hc : UseOnly sel c)
    (hf : ∀ a, UseOnly sel (f a)) : UseOnly sel (c >>= f) where
  only := hc.only.bind onlyUseOf_trans fun a => (hf a).only
  ends stop hstop := (hc.ends stop hstop).bind fun a => (hf a).ends stop hstop

theorem pure {α : Type} (a : α) : UseOnly sel (pure a : Resolution α) where
  only := respects_pure onlyUseOf_refl a
  ends _ _ := avoids_pure a

theorem raise {α : Type} (e : PyError) : UseOnly sel (throw (.raised e) : Resolution α) where
  only := respects_throw onlyUseOf_refl _
  ends _ hstop := avoids_throw (hstop e).symm

theorem get : UseOnly sel (get : Resolution Emerge) where
  only := respects_get onlyUseOf_refl
  ends _ _ := avoids_get

theorem forM {α : Type} {f : α → Resolution Unit} {l : List α} (h : ∀ a ∈ l, UseOnly sel (f a)) :
    UseOnly sel (l.forM f) where
  only := respects_forM onlyUseOf_refl onlyUseOf_trans fun a ha => (h a ha).only
  ends stop hstop := avoids_forM fun a ha => (h a ha).ends stop hstop

theorem same {α : Type} {c : Resolution α} (h : UseOnly sel c) : Respects SameButUse c :=
  h.only.mono fun _ _ h => h.1

end UseOnly

theorem getSel_useOnly (sel z : Nat) : UseOnly sel (getSel z) where
  only s := (getSel_state z s).symm ▸ onlyUseOf_refl s
  ends stop hstop s t h := by
    rw [getSel] at h
    split at h
    · exact absurd (Prod.mk.inj h).1 (by simp)
    · exact hstop _ (Except.error.inj (Prod.mk.inj h).1).symm

theorem raising_useOnly {α : Type} (sel : Nat) (r : Except PyError α) : UseOnly sel (raising r) := by
  cases r with
  | ok a => exact UseOnly.pure a
  | error e => exact UseOnly.raise e

theorem useFlags_useOnly (sel : Nat) : UseOnly sel (useFlags sel) :=
  UseOnly.bind (getSel_useOnly sel sel) fun _ =>
    UseOnly.bind UseOnly.get fun _ => UseOnly.pure _

theorem scheduleUse_useOnly (sel : Nat) (useflag : UseFlag) :
    UseOnly sel (scheduleUse sel useflag) :=
  modifySel_useOnly sel _ fun _ => rfl

theorem addUse_useOnly (sel : Nat) (name : List Char) (value : Bool) :
    UseOnly sel (addUse sel name value) :=
  modifySel_useOnly sel _ fun _ => rfl

theorem runHookAt_useOnly (sel : Nat) (name : Option (List Char)) (arg : Option Bool) (i : Nat) :
    UseOnly sel (runHookAt sel name arg i) := by
  refine UseOnly.bind (useFlags_useOnly sel) fun flags => ?_
  refine UseOnly.bind (getSel_useOnly sel sel) fun selected => ?_
  split
  · exact UseOnly.pure _
  · exact UseOnly.bind (raising_useOnly sel _) fun _ =>
      modifySel_useOnly sel _ fun s => setHooks_settled s _ _

theorem runHooks_useOnly (sel : Nat) (name : Option (List Char)) (arg : Option Bool) :
    UseOnly sel (runHooks sel name arg) :=
  UseOnly.bind (getSel_useOnly sel sel) fun _ =>
    UseOnly.forM fun i _ => runHookAt_useOnly sel name arg i

theorem hookArg_useOnly (sel : Nat) (name : Option (List Char)) :
    UseOnly sel (hookArg sel name) := by
  cases name with
  | none => exact UseOnly.pure _
  | some name =>
    exact UseOnly.bind (useFlags_useOnly sel) fun _ =>
      UseOnly.bind (raising_useOnly sel _) fun _ => UseOnly.pure _

theorem addUseHook_useOnly (sel : Nat) (useflag : Option UseFlag) (hook : Hookable) :
    UseOnly sel (addUseHook sel useflag hook) := by
  refine UseOnly.bind (getSel_useOnly sel sel) fun selected => ?_
  refine UseOnly.bind (modifySel_useOnly sel _ fun s => setHooks_settled s _ _) fun _ => ?_
  exact UseOnly.bind (hookArg_useOnly sel _) fun arg => runHookAt_useOnly sel _ arg _

theorem newUseSelection_useOnly (sel : Nat) (useFlag : UseFlag) (flag : AtomUse) :
    UseOnly sel (newUseSelection sel useFlag flag) := by
  cases flag with
  | enable | disable | opposite =>
    exact UseOnly.bind (scheduleUse_useOnly sel _) fun _ => UseOnly.pure _
  | disableIfOff | enableIfOn | equal => exact UseOnly.pure _

theorem addUseRequirement_useOnly (sel : Nat) (name : List Char) (flag : AtomUse) :
    UseOnly sel (addUseRequirement sel name flag) := by
  refine UseOnly.bind (useFlags_useOnly sel) fun flags => ?_
  refine UseOnly.bind (raising_useOnly sel _) fun use => ?_
  exact UseOnly.bind (newUseSelection_useOnly sel use flag) fun hook =>
    addUseHook_useOnly sel _ hook

theorem requireUse_useOnly (sel : Nat) (use : AtomFlag) :
    UseOnly sel (requireUse sel use) := by
  refine UseOnly.bind (useFlags_useOnly sel) fun flags => ?_
  split_ifs
  · exact addUseRequirement_useOnly sel _ _
  · split
    · exact UseOnly.raise _
    · exact UseOnly.raise _
    · exact UseOnly.bind (addUse_useOnly sel _ _) fun _ => addUseRequirement_useOnly sel _ _
    · exact UseOnly.bind (addUse_useOnly sel _ _) fun _ => addUseRequirement_useOnly sel _ _

theorem flushOne_useOnly (sel : Nat) (useflag : UseFlag) :
    UseOnly sel (flushOne sel useflag) := by
  refine UseOnly.bind (modifySel_useOnly sel _ fun _ => rfl) fun _ => ?_
  refine UseOnly.bind (useFlags_useOnly sel) fun flags => ?_
  refine UseOnly.bind (raising_useOnly sel _) fun current => ?_
  split_ifs
  · exact UseOnly.pure _
  · refine UseOnly.bind (modifySel_useOnly sel _ fun _ => rfl) fun _ => ?_
    exact UseOnly.bind (runHooks_useOnly sel _ _) fun _ => runHooks_useOnly sel _ _

theorem flushUse_useOnly (sel : Nat) : UseOnly sel (flushUse sel) :=
  UseOnly.bind (getSel_useOnly sel sel) fun _ =>
    UseOnly.forM fun useflag _ => flushOne_useOnly sel useflag

theorem hookRequiredUse_useOnly (sel : Nat) (expression : UseTree) :
    UseOnly sel (hookRequiredUse sel expression) := by
  rw [hookRequiredUse]
  split_ifs
  · exact UseOnly.pure _
  · exact addUseHook_useOnly sel _ _

theorem addBlock_useOnly (sel : Nat) (atom : Atom) : UseOnly sel (addBlock atom) where
  only _ := ⟨rfl, fun _ _ => rfl⟩
  ends _ _ s t h :=
    absurd (Prod.mk.inj (show ((.ok (), _) : Except Stop Unit × Emerge) = _ from h)).1 (by simp)

theorem resolveCondition_useOnly (parent : Nat) (useOperator : UseOperator) (useCondition : Nat)
    (children : DependTree) :
    UseOnly parent (resolveCondition parent useOperator useCondition children) := by
  refine UseOnly.bind UseOnly.get fun self => ?_
  by_cases hc : useCondition = 0
  · rw [if_pos hc]
    exact UseOnly.pure _
  · rw [if_neg hc]
    by_cases ho : useOperator ≠ .enable ∧ useOperator ≠ .disable
    · rw [if_pos ho]
      exact UseOnly.raise _
    · rw [if_neg ho]
      cases self.getUseFlag useCondition with
      | none => exact UseOnly.raise _
      | some flag =>
        by_cases hn : children = .null
        · simp only [if_pos hn]
          exact UseOnly.raise _
        · simp only [if_neg hn]
          exact addUseHook_useOnly parent _ _

theorem getResolved_of_mem (regenerate : Nat → Resolution Unit) {sel : Nat} {s : Emerge}
    (h : sel ∈ s.resolveSession) : getResolved regenerate sel s = (.ok (), s) := by
  show (if sel ∈ s.resolveSession then _ else _ : Resolution Unit) s = _
  rw [if_pos h]
  rfl

theorem getResolved_of_notMem (regenerate : Nat → Resolution Unit) {sel : Nat} {s : Emerge}
    (h : sel ∉ s.resolveSession) : getResolved regenerate sel s =
      regenerate sel { s with resolveSession := sel :: s.resolveSession } := by
  show (if sel ∈ s.resolveSession then _ else _ : Resolution Unit) s = _
  rw [if_neg h]
  rfl

/-- A relation between states that all parts of `regenerate` keep to, where `may`
says of which objects the lists of dependencies may change and `asks` which atoms
are selected for. -/
structure Frame (select : Select) (may : Nat → Prop) (asks : Atom → Prop)
    (R : Emerge → Emerge → Prop) : Prop where
  trans : ∀ s t r, R s t → R t r → R s r
  use : ∀ s t, SameButUse s t → R s t
  deps : ∀ sel, may sel → ∀ f, (∀ s, SelectedEbuild.bare (f s) = s.bare) → Respects R (modifySel sel f)
  session : ∀ sel s, may sel → sel ∉ s.resolveSession →
    R s { s with resolveSession := sel :: s.resolveSession }
  skip : ∀ sel s t, ¬ may sel → sel ∉ s.resolveSession → R s t
  select : ∀ parent atom, asks atom → Respects R (ofCall (select parent atom))
  files : ∀ s ebuild, (∀ i, ∀ atom ∈ ((s.metadata ebuild).depTypes i).topAtoms, asks atom) ∨
    ∀ t, R s t
  load : ∀ ebuild s, R s (s.readMetadata ebuild)

namespace Frame

variable {select : Select} {may : Nat → Prop} {asks : Atom → Prop} {R : Emerge → Emerge → Prop}

theorem refl (hF : Frame select may asks R) (s : Emerge) : R s s := hF.use s s rfl

theorem bind (hF : Frame select may asks R) {α β : Type} {c : Resolution α} {f : α → Resolution β}
    (hc : Respects R c) (hf : ∀ a, Respects R (f a)) : Respects R (c >>= f) :=
  Respects.bind hF.trans hc hf

theorem pure (hF : Frame select may asks R) {α : Type} (a : α) : Respects R (pure a : Resolution α) :=
  respects_pure hF.refl a

theorem ofUse (hF : Frame select may asks R) {sel : Nat} {α : Type} {c : Resolution α}
    (h : UseOnly sel c) : Respects R c := h.same.mono hF.use

theorem resolveAtom (hF : Frame select may asks R) (parent : Option Nat) {atom : Atom}
    (h : asks atom) : Respects R (resolveAtom select parent atom) := by
  refine hF.bind (hF.select parent atom h) fun found => ?_
  cases found with
  | none =>
    simp only
    split_ifs
    · exact hF.pure _
    · exact respects_throw hF.refl _
  | some sel =>
    have huse : UseOnly sel (atom.useflags.forM (requireUse sel)) :=
      UseOnly.forM fun use _ => requireUse_useOnly sel use
    exact hF.bind (hF.ofUse huse) fun _ => hF.pure _

theorem resolveSingle (hF : Frame select may asks R) (parent : Option Nat) (useOperator : UseOperator)
    (useCondition : Nat) {atom : Option Atom} (children : DependTree)
    (h : ∀ a ∈ requestedAtom atom, asks a) :
    Respects R (resolveSingle select parent useOperator useCondition atom children) := by
  cases atom with
  | some atom =>
    simp only [AutoGentoo.resolveSingle]
    split_ifs with hb
    · exact hF.bind (hF.ofUse (addBlock_useOnly 0 atom)) fun _ => hF.pure _
    · refine hF.resolveAtom parent (h atom ?_)
      rw [requestedAtom, if_pos (not_not.mp hb)]
      exact List.mem_singleton.mpr rfl
  | none =>
    cases parent with
    | none => exact respects_throw hF.refl _
    | some parent =>
      exact hF.bind (hF.ofUse (resolveCondition_useOnly parent _ _ _)) fun _ =>
        hF.pure _

theorem resolveAll (hF : Frame select may asks R) (parent : Option Nat)
    {append : Generator → Resolution Unit} (happend : ∀ dep, Respects R (append dep))
    {expression : DependTree} (h : ∀ a ∈ expression.topAtoms, asks a) : Respects R (resolveAll select parent append expression) := by
  induction expression with
  | null => exact hF.pure _
  | node useOperator useCondition atom children next _ ih =>
    refine hF.bind (hF.resolveSingle parent useOperator useCondition children
      fun a ha => h a (List.mem_append_left _ ha)) fun resolved => ?_
    refine hF.bind ?_ fun _ => ih fun a ha => h a (List.mem_append_right _ ha)
    cases resolved with
    | none => exact hF.pure _
    | some dep => exact happend dep

theorem loadMetadata (hF : Frame select may asks R) (ebuild : Ebuild) :
    Respects R (loadMetadata ebuild) := by
  refine hF.bind (respects_get hF.refl) fun self => ?_
  split_ifs
  · exact hF.pure _
  · exact fun s => hF.load ebuild s

theorem refresh (hF : Frame select may asks R) {sel : Nat} (h : may sel) :
    Respects R (refresh select sel) := by
  refine hF.bind (hF.deps sel h _ fun _ => rfl) fun _ => ?_
  refine hF.bind (hF.ofUse (getSel_useOnly sel sel)) fun selected => ?_
  refine hF.bind (hF.loadMetadata _) fun _ => ?_
  refine hF.bind (hF.ofUse (flushUse_useOnly sel)) fun _ => ?_
  refine respects_get_bind fun s => ?_
  rcases hF.files s selected.ebuild with hasks | hall
  · refine hF.bind (hF.ofUse (hookRequiredUse_useOnly sel _)) (fun _ => ?_) s
    refine hF.bind ?_ fun _ => hF.deps sel h _ fun _ => rfl
    refine respects_forM hF.refl hF.trans fun i _ => ?_
    have happend : ∀ dep, Respects R (appendGenerator sel i dep) := fun dep =>
      hF.deps sel h _ fun _ => rfl
    exact hF.resolveAll (some sel) happend (hasks i)
  · exact hall _

theorem refreshIfDirty (hF : Frame select may asks R) {sel : Nat} (h : may sel) :
    Respects R (refreshIfDirty select sel) := by
  refine hF.bind (hF.ofUse (getSel_useOnly sel sel)) fun selected => ?_
  split_ifs
  · exact hF.refresh h
  · exact hF.pure _

theorem getResolved (hF : Frame select may asks R) {regenerate : Nat → Resolution Unit}
    (hr : ∀ sel, may sel → Respects R (regenerate sel)) (sel : Nat) :
    Respects R (getResolved regenerate sel) := by
  intro s
  by_cases hs : sel ∈ s.resolveSession
  · rw [getResolved_of_mem regenerate hs]
    exact hF.refl s
  · rw [getResolved_of_notMem regenerate hs]
    by_cases hm : may sel
    · exact hF.trans _ _ _ (hF.session sel s hm hs) (hr sel hm _)
    · exact hF.skip sel s _ hm hs

theorem regenerate (hF : Frame select may asks R) (fuel : Nat) {sel : Nat} (h : may sel) :
    Respects R (regenerate select fuel sel) := by
  induction fuel generalizing sel with
  | zero => exact respects_throw hF.refl _
  | succ fuel ih =>
    refine hF.bind (hF.refreshIfDirty h) fun _ => ?_
    refine hF.bind (hF.deps sel h _ fun _ => rfl) fun _ => ?_
    refine hF.bind (hF.ofUse (getSel_useOnly sel sel)) fun selected => ?_
    refine respects_forM hF.refl hF.trans fun p _ => ?_
    exact hF.bind (hF.getResolved (fun sel h => ih h) p.2.sel) fun _ =>
      hF.deps sel h _ fun _ => rfl

end Frame

end AutoGentoo
