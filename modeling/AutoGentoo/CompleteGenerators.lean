import AutoGentoo.AgreeingRequests
import AutoGentoo.CleanCore

/-! Where the requests agree, an object that is not dirty has an answer to each of its
requests among its generators, after any calls, raising ones included. -/

namespace AutoGentoo

open StateExcept Emerge

namespace Emerge

/-- What is not dirty afterwards was not before, and had these generators. -/
def Dirties (s t : Emerge) : Prop := ∀ (x : Nat) (b : SelectedEbuild), t.selected[x]? = some b →
  b.isDirty = false → ∃ a : SelectedEbuild, s.selected[x]? = some a ∧ a.isDirty = false ∧
    a.generators = b.generators

theorem dirties_refl (s : Emerge) : Dirties s s := fun _ b hb hclean => ⟨b, hb, hclean, rfl⟩

theorem dirties_trans (s t r : Emerge) (h : Dirties s t) (h' : Dirties t r) : Dirties s r := by
  intro x c hc hclean
  obtain ⟨b, hb, hbclean, hbc⟩ := h' x c hc hclean
  obtain ⟨a, ha, haclean, hab⟩ := h x b hb hbclean
  exact ⟨a, ha, haclean, hab.trans hbc⟩

theorem SameCore.dirties {s t : Emerge} (h : SameCore s t) : Dirties s t := by
  intro x b hb hclean
  obtain ⟨a, ha, he⟩ := h.symm.get hb
  have hgenerators : b.core.generators = a.core.generators := by rw [he]
  exact ⟨a, ha, (SelectedEbuild.core_isDirty he).symm.trans hclean, hgenerators.symm⟩

end Emerge

theorem dirties_of_sameCore {α : Type} {c : Resolution α} (h : Respects SameCore c) : Respects Dirties c :=
  h.mono fun _ _ h => h.dirties

theorem dirties_bind {α β : Type} {c : Resolution α} {f : α → Resolution β} (hc : Respects Dirties c)
    (hf : ∀ a, Respects Dirties (f a)) : Respects Dirties (c >>= f) := hc.bind dirties_trans hf

theorem dirties_pure {α : Type} (a : α) : Respects Dirties (pure a : Resolution α) :=
  respects_pure dirties_refl a

theorem modifySel_dirties (sel : Nat) {f : SelectedEbuild → SelectedEbuild}
    (hf : ∀ a, (f a).isDirty = false → a.isDirty = false ∧ a.generators = (f a).generators) :
    Respects Dirties (modifySel sel f) := by
  intro s x b hb hclean
  by_cases hx : sel = x
  · subst hx
    rw [modifySel_self] at hb
    obtain ⟨a, ha, rfl⟩ := Option.map_eq_some_iff.mp hb
    exact ⟨a, ha, (hf a hclean).1, (hf a hclean).2⟩
  · rw [modifySel_ne hx] at hb
    exact ⟨b, hb, hclean, rfl⟩

theorem setHooks_dirty (s : SelectedEbuild) (name : Option (List Char)) (hooks : List Hookable) :
    (s.setHooks name hooks).isDirty = s.isDirty ∧ (s.setHooks name hooks).generators = s.generators := by
  cases name <;> exact ⟨rfl, rfl⟩

theorem setHooks_dirties (sel : Nat) (name : Option (List Char)) (f : SelectedEbuild → List Hookable) :
    Respects Dirties (modifySel sel fun s => s.setHooks name (f s)) := by
  refine modifySel_dirties sel fun a hclean => ?_
  obtain ⟨hdirty, hgenerators⟩ := setHooks_dirty a name (f a)
  exact ⟨hdirty ▸ hclean, hgenerators.symm⟩

theorem runHookAt_dirties (sel : Nat) (name : Option (List Char)) (arg : Option Bool) (i : Nat) :
    Respects Dirties (runHookAt sel name arg i) := by
  refine dirties_bind (dirties_of_sameCore (useFlags_sameCore sel)) fun flags => ?_
  refine dirties_bind (dirties_of_sameCore (getSel_sameCore sel)) fun selected => ?_
  split
  · exact dirties_pure _
  · exact dirties_bind (dirties_of_sameCore (raising_sameCore _)) fun _ => setHooks_dirties sel name _

theorem runHooks_dirties (sel : Nat) (name : Option (List Char)) (arg : Option Bool) :
    Respects Dirties (runHooks sel name arg) :=
  dirties_bind (dirties_of_sameCore (getSel_sameCore sel)) fun _ =>
    respects_forM dirties_refl dirties_trans fun i _ => runHookAt_dirties sel name arg i

theorem addUseHook_dirties (sel : Nat) (useflag : Option UseFlag) (hook : Hookable) :
    Respects Dirties (addUseHook sel useflag hook) := by
  refine dirties_bind (dirties_of_sameCore (getSel_sameCore sel)) fun selected => ?_
  refine dirties_bind (setHooks_dirties sel _ _) fun _ => ?_
  exact dirties_bind (dirties_of_sameCore (hookArg_sameCore sel _)) fun arg => runHookAt_dirties sel _ arg _

theorem scheduleUse_dirties (sel : Nat) (useflag : UseFlag) : Respects Dirties (scheduleUse sel useflag) :=
  modifySel_dirties sel fun _ hclean => absurd hclean (by simp)

theorem newUseSelection_dirties (sel : Nat) (useFlag : UseFlag) (flag : AtomUse) :
    Respects Dirties (newUseSelection sel useFlag flag) := by
  cases flag with
  | enable | disable | opposite =>
    exact dirties_bind (scheduleUse_dirties sel _) fun _ => dirties_pure _
  | disableIfOff | enableIfOn | equal => exact dirties_pure _

theorem addUseRequirement_dirties (sel : Nat) (name : List Char) (flag : AtomUse) :
    Respects Dirties (addUseRequirement sel name flag) := by
  refine dirties_bind (dirties_of_sameCore (useFlags_sameCore sel)) fun flags => ?_
  refine dirties_bind (dirties_of_sameCore (raising_sameCore _)) fun use => ?_
  exact dirties_bind (newUseSelection_dirties sel use flag) fun hook => addUseHook_dirties sel _ hook

theorem requireUse_dirties (sel : Nat) (use : AtomFlag) : Respects Dirties (requireUse sel use) := by
  refine dirties_bind (dirties_of_sameCore (useFlags_sameCore sel)) fun flags => ?_
  split_ifs
  · exact addUseRequirement_dirties sel _ _
  · split
    · exact respects_throw dirties_refl _
    · exact respects_throw dirties_refl _
    · exact dirties_bind (dirties_of_sameCore (addUse_sameCore sel _ _)) fun _ => addUseRequirement_dirties sel _ _
    · exact dirties_bind (dirties_of_sameCore (addUse_sameCore sel _ _)) fun _ => addUseRequirement_dirties sel _ _

theorem flushOne_dirties (sel : Nat) (useflag : UseFlag) : Respects Dirties (flushOne sel useflag) := by
  refine dirties_bind (modifySel_dirties sel fun _ hclean => ⟨hclean, rfl⟩) fun _ => ?_
  refine dirties_bind (dirties_of_sameCore (useFlags_sameCore sel)) fun flags => ?_
  refine dirties_bind (dirties_of_sameCore (raising_sameCore _)) fun current => ?_
  split_ifs
  · exact dirties_pure _
  · refine dirties_bind (modifySel_dirties sel fun _ hclean => ⟨hclean, rfl⟩) fun _ => ?_
    exact dirties_bind (runHooks_dirties sel _ _) fun _ => runHooks_dirties sel _ _

theorem flushUse_dirties (sel : Nat) : Respects Dirties (flushUse sel) :=
  dirties_bind (dirties_of_sameCore (getSel_sameCore sel)) fun _ =>
    respects_forM dirties_refl dirties_trans fun useflag _ => flushOne_dirties sel useflag

theorem hookRequiredUse_dirties (sel : Nat) (expression : UseTree) :
    Respects Dirties (hookRequiredUse sel expression) := by
  rw [hookRequiredUse]
  split_ifs
  · exact dirties_pure _
  · exact addUseHook_dirties sel _ _

namespace Emerge

variable {o s t r : Emerge} {asks : Atom → Prop} {loop : ForLoop}

/-- One object for each package stays, with the same ebuilds, and nothing gets clean. -/
def Works (o : Emerge) (asks : Atom → Prop) (s t : Emerge) : Prop :=
  s.Lone o asks → t.Lone o asks ∧ s.KeepsEbuilds t ∧ s.Dirties t

theorem works_trans (s t r : Emerge) (h : Works o asks s t) (h' : Works o asks t r) : Works o asks s r := by
  intro hs
  obtain ⟨ht, hkeeps, hdirties⟩ := h hs
  obtain ⟨hr, hkeeps', hdirties'⟩ := h' ht
  exact ⟨hr, hkeeps.trans hkeeps', dirties_trans _ _ _ hdirties hdirties'⟩

theorem works_refl (s : Emerge) : Works o asks s s := fun hs => ⟨hs, .refl s, dirties_refl s⟩

theorem UseOnly.works {sel : Nat} {α : Type} {c : Resolution α} (h : UseOnly sel c) (hc : Respects Dirties c) :
    Respects (Works o asks) c := fun s hs =>
  have ⟨hlone, hkeeps⟩ := (h.same s).staysLone hs
  ⟨hlone, hkeeps, hc s⟩

theorem opensPackage_dirties (s : Emerge) (parent : Option Nat) (atom : Atom) (ebuild : Ebuild) :
    s.Dirties (s.opensPackage parent atom ebuild) := by
  intro x b hb hclean
  by_cases hx : x < s.selected.length
  · exact ⟨b, (List.getElem?_append_left hx).symm.trans hb, hclean, rfl⟩
  · have hnew : [SelectedEbuild.init parent atom ebuild][x - s.selected.length]? = some b :=
      (List.getElem?_append_right (Nat.le_of_not_lt hx)).symm.trans hb
    rw [List.mem_singleton.mp (List.mem_of_getElem? hnew)] at hclean
    exact absurd hclean (by simp [SelectedEbuild.init])

theorem select_works (ho : o.Agreeing asks) (parent : Option Nat) {atom : Atom} (hatom : asks atom) :
    Respects (Works o asks) (ofCall (selectAtomOver loop parent atom)) := by
  intro s hs
  rcases ofCall_state (selectAtomOver loop parent atom) s with he | ⟨found, t, h, he⟩
  · rw [he]
    exact works_refl s hs
  · rw [he]
    obtain ⟨x, b, -, -, -, -, ht, rfl | ⟨ebuild, rfl⟩⟩ := hs.selected ho hatom h
    · exact works_refl t ht
    · exact ⟨ht, created_keeps s _ _ _ _ _, opensPackage_dirties s _ _ _⟩

theorem resolveAtom_works (ho : o.Agreeing asks) (parent : Option Nat) {atom : Atom} (hatom : asks atom) :
    Respects (Works o asks) (resolveAtom (selectAtomOver loop) parent atom) := by
  refine (select_works ho parent hatom).bind works_trans fun found => ?_
  cases found with
  | none =>
    simp only
    split_ifs
    · exact respects_pure works_refl _
    · exact respects_throw works_refl _
  | some sel =>
    have huse : UseOnly sel (atom.useflags.forM (requireUse sel)) :=
      UseOnly.forM fun use _ => requireUse_useOnly sel use
    have hdirties : Respects Dirties (atom.useflags.forM (requireUse sel)) :=
      respects_forM dirties_refl dirties_trans fun use _ => requireUse_dirties sel use
    exact (UseOnly.works huse hdirties).bind works_trans fun _ => respects_pure works_refl _

theorem resolveSingle_works (ho : o.Agreeing asks) (sel : Nat) (useOperator : UseOperator) (useCondition : Nat)
    {atom : Option Atom} (children : DependTree) (hatom : ∀ a ∈ requestedAtom atom, asks a) :
    Respects (Works o asks)
      (resolveSingle (selectAtomOver loop) (some sel) useOperator useCondition atom children) := by
  cases atom with
  | some atom =>
    simp only [resolveSingle]
    split_ifs with hb
    · exact (UseOnly.works (addBlock_useOnly sel atom) (dirties_of_sameCore (addBlock_sameCore atom))).bind
        works_trans fun _ => respects_pure works_refl _
    · refine resolveAtom_works ho _ (hatom atom ?_)
      rw [requestedAtom, if_pos (not_not.mp hb)]
      exact List.mem_singleton_self atom
  | none =>
    exact (UseOnly.works (resolveCondition_useOnly sel _ _ _)
      (dirties_of_sameCore (resolveCondition_sameCore sel _ _ _))).bind works_trans
        fun _ => respects_pure works_refl _

/-- The object is dirty, if it is there. -/
def Dirty (s : Emerge) (sel : Nat) : Prop := ∀ a, s.selected[sel]? = some a → a.isDirty = true

theorem Dirty.keeps {sel : Nat} (h : s.Dirty sel) (hdirties : s.Dirties t) : t.Dirty sel := by
  intro b hb
  by_contra hclean
  obtain ⟨a, ha, haclean, -⟩ := hdirties sel b hb (Bool.not_eq_true _ ▸ hclean)
  exact absurd ((h a ha).symm.trans haclean) (by simp)

/-- The same where an object is dirty. -/
def WorksOn (o : Emerge) (asks : Atom → Prop) (sel : Nat) (s t : Emerge) : Prop := s.Dirty sel → Works o asks s t

theorem worksOn_trans {sel : Nat} (s t r : Emerge) (h : WorksOn o asks sel s t) (h' : WorksOn o asks sel t r) :
    WorksOn o asks sel s r := by
  intro hdirty hs
  obtain ⟨ht, hkeeps, hdirties⟩ := h hdirty hs
  obtain ⟨hr, hkeeps', hdirties'⟩ := h' (hdirty.keeps hdirties) ht
  exact ⟨hr, hkeeps.trans hkeeps', dirties_trans _ _ _ hdirties hdirties'⟩

theorem worksOn_refl {sel : Nat} (s : Emerge) : WorksOn o asks sel s s := fun _ => works_refl s

theorem worksOn_of_works {sel : Nat} {α : Type} {c : Resolution α} (h : Respects (Works o asks) c) :
    Respects (WorksOn o asks sel) c := h.mono fun _ _ h _ => h

/-- The generators of a dirty object may change. -/
theorem modifySel_worksOn (sel : Nat) {f : SelectedEbuild → SelectedEbuild} (hebuild : ∀ a, (f a).ebuild = a.ebuild)
    (hdirty : ∀ a, (f a).isDirty = a.isDirty) : Respects (WorksOn o asks sel) (modifySel sel f) := by
  intro s hs hlone
  obtain ⟨ht, hkeeps⟩ := modifySel_staysLone sel hebuild s hlone
  refine ⟨ht, hkeeps, fun x b hb hclean => ?_⟩
  by_cases hx : sel = x
  · subst hx
    rw [modifySel_self] at hb
    obtain ⟨a, ha, rfl⟩ := Option.map_eq_some_iff.mp hb
    exact absurd ((hs a ha).symm.trans ((hdirty a).symm.trans hclean)) (by simp)
  · rw [modifySel_ne hx] at hb
    exact ⟨b, hb, hclean, rfl⟩

theorem appendGenerator_worksOn (sel : Nat) (i : Fin 4) (dep : Generator) :
    Respects (WorksOn o asks sel) (appendGenerator sel i dep) := by
  refine modifySel_worksOn sel ?_ ?_
  · exact fun _ => rfl
  · exact fun _ => rfl

theorem resolveAll_worksOn (ho : o.Agreeing asks) (sel : Nat) (i : Fin 4) {expression : DependTree}
    (h : ∀ a ∈ expression.topAtoms, asks a) : Respects (WorksOn o asks sel)
      (resolveAll (selectAtomOver loop) (some sel) (appendGenerator sel i) expression) := by
  induction expression with
  | null => exact respects_pure worksOn_refl _
  | node useOperator useCondition atom children next _ ih =>
    have hsingle : Respects (Works o asks)
        (resolveSingle (selectAtomOver loop) (some sel) useOperator useCondition atom children) :=
      resolveSingle_works ho sel useOperator useCondition children fun a ha => h a (List.mem_append_left _ ha)
    refine (worksOn_of_works hsingle).bind worksOn_trans fun resolved => ?_
    refine Respects.bind worksOn_trans ?_ fun _ => ih fun a ha => h a (List.mem_append_right _ ha)
    cases resolved with
    | none => exact respects_pure worksOn_refl _
    | some dep => exact appendGenerator_worksOn sel i dep

/-- The object an entry leads to is there, of the package of the atom, which matches its ebuild. -/
def Answers (s : Emerge) (p : Generator) : Prop :=
  ∃ b : SelectedEbuild, s.selected[p.sel]? = some b ∧ b.ebuild.packageKey = p.atom.key ∧
    atomMatches p.atom b.ebuild = some true

theorem Answers.keeps {p : Generator} (h : s.Answers p) (hkeeps : s.KeepsEbuilds t) : t.Answers p := by
  obtain ⟨a, ha, hkey, hmatch⟩ := h
  obtain ⟨b, hb, he⟩ := hkeeps p.sel a ha
  exact ⟨b, hb, he ▸ hkey, he ▸ hmatch⟩

/-- The lists have an answer to each request of a file, in order, and nothing else. -/
def Provides (s : Emerge) (file : Metadata) (c : DependencyContainer Generator) : Prop :=
  ∃ entries, c = DependencyContainer.empty.appendAll entries ∧ entries.map entryRequest = file.requests ∧
    ∀ p ∈ entries, s.Answers p.2

theorem Provides.keeps {file : Metadata} {c : DependencyContainer Generator} (h : s.Provides file c)
    (hkeeps : s.KeepsEbuilds t) : t.Provides file c := by
  obtain ⟨entries, hc, hrequests, hanswers⟩ := h
  exact ⟨entries, hc, hrequests, fun p hp => (hanswers p hp).keeps hkeeps⟩

/-- The generators of an object have got an answer to each of these requests. -/
def Collects (sel : Nat) (requests : List (Fin 4 × Atom)) (s t : Emerge) : Prop :=
  ∃ entries : List (Fin 4 × Generator), entries.map entryRequest = requests ∧ (∀ p ∈ entries, t.Answers p.2) ∧
    ∀ a : SelectedEbuild, s.selected[sel]? = some a →
      ∃ b : SelectedEbuild, t.selected[sel]? = some b ∧ b.generators = a.generators.appendAll entries

theorem collects_nil {sel : Nat} (h : ∀ d, s.deps sel = some d → t.deps sel = some d) : Collects sel [] s t := by
  refine ⟨[], rfl, fun p hp => absurd hp List.not_mem_nil, fun a ha => ?_⟩
  obtain ⟨b, hb, hgenerators, -⟩ := generators_of_deps h ha
  exact ⟨b, hb, hgenerators⟩

theorem SameButUse.collects {sel : Nat} (h : SameButUse s t) : Collects sel [] s t :=
  collects_nil fun _ hd => h.deps sel ▸ hd

theorem Collects.trans {sel : Nat} {l l' : List (Fin 4 × Atom)} (h : Collects sel l s t)
    (h' : Collects sel l' t r) (hkeeps : t.KeepsEbuilds r) : Collects sel (l ++ l') s r := by
  obtain ⟨entries, rfl, hanswers, hgenerators⟩ := h
  obtain ⟨entries', rfl, hanswers', hgenerators'⟩ := h'
  refine ⟨entries ++ entries', List.map_append, fun p hp => ?_, fun a ha => ?_⟩
  · rcases List.mem_append.mp hp with hp | hp
    · exact (hanswers p hp).keeps hkeeps
    · exact hanswers' p hp
  · obtain ⟨b, hb, hab⟩ := hgenerators a ha
    obtain ⟨c, hc, hbc⟩ := hgenerators' b hb
    refine ⟨c, hc, ?_⟩
    rw [hbc, hab, DependencyContainer.appendAll, DependencyContainer.appendAll,
      DependencyContainer.appendAll, List.foldl_append]

/-- An atom that is no blocker is selected for, and its object appended. -/
theorem resolveAtom_collects (ho : o.Agreeing asks) {sel : Nat} {i : Fin 4} {atom : Atom} (hatom : asks atom)
    {u : Emerge} {resolved : Option Generator} (hs : s.Lone o asks)
    (h : resolveAtom (selectAtomOver loop) (some sel) atom s = (.ok resolved, u))
    (hyield : yieldTo (appendGenerator sel i) resolved u = (.ok (), t)) : Collects sel [(i, atom)] s t := by
  obtain ⟨found, v, hselect, hrest⟩ := bind_ok.mp h
  have hselected := ofCall_ok.mp hselect
  obtain ⟨x, b, rfl, hb, hkey, hmatch, -, -⟩ := hs.selected ho hatom hselected
  obtain ⟨_, w, huse, hend⟩ := bind_ok.mp hrest
  obtain ⟨rfl, rfl⟩ := pure_ok.mp hend
  have huseOnly : UseOnly x (atom.useflags.forM (requireUse x)) :=
    UseOnly.forM fun use _ => requireUse_useOnly x use
  have hsame := huseOnly.same.ok huse
  obtain rfl : (appendGenerator sel i { atom := atom, sel := x } w).2 = t := by
    rw [show appendGenerator sel i { atom := atom, sel := x } w = _ from hyield]
  have happends : w.KeepsEbuilds (appendGenerator sel i { atom := atom, sel := x } w).2 := by
    refine modifySel_keeps sel ?_ w
    exact fun _ => rfl
  refine ⟨[(i, { atom := atom, sel := x })], rfl, fun p hp => ?_, fun a ha => ?_⟩
  · rw [List.mem_singleton.mp hp]
    exact Answers.keeps ⟨b, hb, hkey, hmatch⟩ (hsame.keepsEbuilds.trans happends)
  · obtain ⟨c, hc, hgenerators, -⟩ := generators_of_deps (t := w)
      (fun d hd => hsame.deps sel ▸ (selectAtomOver_effect hselected).deps hd) ha
    refine ⟨_, by rw [appendGenerator, modifySel_self, hc]; rfl, ?_⟩
    rw [← hgenerators]
    rfl

theorem resolveSingle_collects (ho : o.Agreeing asks) {sel : Nat} {i : Fin 4} {useOperator : UseOperator}
    {useCondition : Nat} {atom : Option Atom} {children : DependTree} (hatom : ∀ a ∈ requestedAtom atom, asks a)
    {u : Emerge} {resolved : Option Generator} (hs : s.Lone o asks)
    (h : resolveSingle (selectAtomOver loop) (some sel) useOperator useCondition atom children s = (.ok resolved, u))
    (hyield : yieldTo (appendGenerator sel i) resolved u = (.ok (), t)) :
    Collects sel ((requestedAtom atom).map (i, ·)) s t := by
  cases atom with
  | none =>
    obtain ⟨_, v, hcondition, hend⟩ := bind_ok.mp h
    obtain ⟨rfl, rfl⟩ := pure_ok.mp hend
    obtain ⟨-, rfl⟩ := pure_ok.mp hyield
    exact SameButUse.collects ((resolveCondition_useOnly sel _ _ _).same.ok hcondition)
  | some atom =>
    simp only [resolveSingle] at h
    rw [requestedAtom] at hatom ⊢
    by_cases hb : atom.blocks = .none
    · rw [if_neg (not_not.mpr hb)] at h
      rw [if_pos hb] at hatom ⊢
      exact resolveAtom_collects ho (hatom atom (List.mem_singleton_self atom)) hs h hyield
    · rw [if_pos hb] at h
      rw [if_neg hb]
      obtain ⟨_, v, hblock, hend⟩ := bind_ok.mp h
      obtain ⟨rfl, rfl⟩ := pure_ok.mp hend
      obtain ⟨-, rfl⟩ := pure_ok.mp hyield
      exact SameButUse.collects ((addBlock_useOnly sel atom).same.ok hblock)

theorem resolveAll_collects (ho : o.Agreeing asks) {sel : Nat} {i : Fin 4} {expression : DependTree}
    (hasks : ∀ a ∈ expression.topAtoms, asks a) (hs : s.Lone o asks)
    (h : resolveAll (selectAtomOver loop) (some sel) (appendGenerator sel i) expression s = (.ok (), t)) :
    Collects sel (expression.topAtoms.map (i, ·)) s t := by
  induction expression generalizing s with
  | null =>
    obtain ⟨-, rfl⟩ := pure_ok.mp h
    exact SameButUse.collects (sameButUse_refl s)
  | node useOperator useCondition atom children next _ ih =>
    obtain ⟨resolved, u, hsingle, hrest⟩ := bind_ok.mp h
    obtain ⟨_, v, hyield, hnext⟩ := bind_ok.mp hrest
    have hfirst : ∀ a ∈ requestedAtom atom, asks a := fun a ha => hasks a (List.mem_append_left _ ha)
    have hlater : ∀ a ∈ next.topAtoms, asks a := fun a ha => hasks a (List.mem_append_right _ ha)
    have happend : ∀ dep, Respects (StaysLone o asks) (appendGenerator sel i dep) := fun dep => by
      refine modifySel_staysLone sel ?_
      exact fun _ => rfl
    have hu := (((lone_frame ho loop).resolveSingle (some sel) _ _ _ hfirst).ok hsingle hs).1
    have hv : v.Lone o asks := by
      cases resolved with
      | none =>
        obtain ⟨-, rfl⟩ := pure_ok.mp hyield
        exact hu
      | some dep => exact ((happend dep).ok hyield hu).1
    have hkeeps := (((lone_frame ho loop).resolveAll (some sel) happend hlater).ok hnext hv).2
    rw [DependTree.topAtoms, List.map_append]
    exact (resolveSingle_collects ho hfirst hs hsingle hyield).trans (ih hlater hv hnext) hkeeps

theorem forM_collects (ho : o.Agreeing asks) {sel : Nat} {metadata : Metadata} {l : List (Fin 4)}
    (hasks : ∀ i, ∀ a ∈ (metadata.depTypes i).topAtoms, asks a) (hs : s.Lone o asks)
    (h : (l.forM fun i => resolveAll (selectAtomOver loop) (some sel) (appendGenerator sel i)
      (metadata.depTypes i)) s = (.ok (), t)) :
    Collects sel (l.flatMap fun i => (metadata.depTypes i).topAtoms.map (i, ·)) s t := by
  have happend : ∀ i dep, Respects (StaysLone o asks) (appendGenerator sel i dep) := fun i dep => by
    refine modifySel_staysLone sel ?_
    exact fun _ => rfl
  have hturn : ∀ i, Respects (StaysLone o asks) (resolveAll (selectAtomOver loop) (some sel)
      (appendGenerator sel i) (metadata.depTypes i)) := fun i =>
    (lone_frame ho loop).resolveAll (some sel) (happend i) (hasks i)
  induction l generalizing s with
  | nil =>
    obtain ⟨-, rfl⟩ := pure_ok.mp h
    exact SameButUse.collects (sameButUse_refl s)
  | cons i l ih =>
    obtain ⟨v, hi, hl⟩ := forM_ok.mp h
    have hv := ((hturn i).ok hi hs).1
    have hkeeps := ((respects_forM (lone_frame ho loop).refl staysLone_trans fun i _ => hturn i).ok hl hv).2
    exact (resolveAll_collects ho (hasks i) hs hi).trans (ih hv hl) hkeeps

end Emerge

end AutoGentoo
