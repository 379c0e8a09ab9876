import AutoGentoo.RegenerateAsks

/-! What `regenerate` leaves in the lists of dependencies. -/

namespace AutoGentoo

open StateExcept Emerge

namespace Emerge

/-- A member of the session stays one, and keeps its lists. -/
def Keeps (sel : Nat) (s t : Emerge) : Prop :=
  sel ∈ s.resolveSession → sel ∈ t.resolveSession ∧ ∀ d, s.deps sel = some d → t.deps sel = some d

theorem keeps_trans (sel : Nat) (s t r : Emerge) (h : Keeps sel s t) (h' : Keeps sel t r) :
    Keeps sel s r := by
  intro hs
  obtain ⟨ht, hd⟩ := h hs
  obtain ⟨hr, hd'⟩ := h' ht
  exact ⟨hr, fun d hsd => hd' d (hd d hsd)⟩

end Emerge

theorem keeps_frame (loop : ForLoop) (sel : Nat) :
    Frame (selectAtomOver loop) (· ≠ sel) (fun _ => True) (Keeps sel) where
  trans := keeps_trans sel
  use s t h hs := ⟨h.resolveSession ▸ hs, fun d hd => h.deps sel ▸ hd⟩
  deps sel' hne f _ s hs := by
    refine ⟨hs, fun d hd => ?_⟩
    rw [← hd, Emerge.deps, modifySel_ne hne]
    rfl
  session sel' s _ _ hs := ⟨List.mem_cons_of_mem _ hs, fun d hd => hd⟩
  skip sel' s t h hnot hs := absurd hs (not_not.mp h ▸ hnot)
  files _ _ := .inl fun _ _ _ => trivial
  select parent atom _ s := by
    rcases ofCall_state (selectAtomOver loop parent atom) s with he | ⟨a, t, h, he⟩
    · rw [he]
      exact fun hs => ⟨hs, fun d hd => hd⟩
    · have heff := selectAtomOver_effect h
      rw [he]
      exact fun hs => ⟨heff.session ▸ hs, fun d hd => heff.deps hd⟩
  load ebuild s hs := ⟨hs, fun d hd => hd⟩

theorem answered_congr (parent : Option Nat) (l : List (Fin 4 × Atom)) {s t : Emerge}
    (h : s.selection = t.selection) : answered parent l s = answered parent l t := by
  induction l generalizing s t with
  | nil => rfl
  | cons p l ih =>
    rw [answered, answered]
    cases hs : selectAtom parent p.2 s with
    | error e =>
      cases ht : selectAtom parent p.2 t with
      | error e' => rfl
      | ok r =>
        obtain ⟨s', hs', -⟩ := selectAtom_congr h.symm ht
        exact absurd (hs.symm.trans hs') (by simp)
    | ok r =>
      obtain ⟨found, s'⟩ := r
      obtain ⟨t', ht, hsel⟩ := selectAtom_congr h hs
      rw [show selectAtom parent p.2 t = .ok (found, t') from ht]
      cases found with
      | none => exact ih hsel
      | some sel => exact congrArg (_ :: ·) (ih hsel)

/-- The atom an entry was selected for, with the index of its list. -/
def entryRequest (p : Fin 4 × Generator) : Fin 4 × Atom := (p.1, p.2.atom)

/-- The requests have been made in these calls, all of which returned, and the generators of the
object have got an entry for each that was answered with an object. -/
structure Yields (sel : Nat) (requests : List (Fin 4 × Atom)) (asked : Ask → Prop)
    (entries : List (Fin 4 × Generator)) (s t : Emerge) : Prop where
  generators : ∀ selected, s.selected[sel]? = some selected → ∃ selected', t.selected[sel]? = some selected' ∧
    selected'.generators = selected.generators.appendAll entries
  answers : ∀ rest, answered (some sel) (requests ++ rest) s = entries ++ answered (some sel) rest t
  entered : ∀ p, p ∈ entries ↔ ∃ q, asked q ∧ q.Answers selectAtom (sel, p)
  returned : ∀ q, asked q → q.parent = some sel ∧ q.Returns selectAtom
  asks : ∀ p, p ∈ requests ↔ ∃ q, asked q ∧ (q.list, q.atom) = p

namespace Yields

variable {sel : Nat} {s t r : Emerge} {requests requests' : List (Fin 4 × Atom)} {asked asked' : Ask → Prop}
  {entries entries' : List (Fin 4 × Generator)}

theorem ofDeps (hsel : s.selection = t.selection)
    (hgen : ∀ selected, s.selected[sel]? = some selected → ∃ selected',
      t.selected[sel]? = some selected' ∧ selected'.generators = selected.generators)
    (hnone : ∀ q, ¬ asked q) : Yields sel [] asked [] s t where
  generators := hgen
  answers rest := answered_congr _ rest hsel
  entered _ := iff_of_false List.not_mem_nil fun ⟨q, hq, _⟩ => hnone q hq
  returned q hq := absurd hq (hnone q)
  asks _ := iff_of_false List.not_mem_nil fun ⟨q, hq, _⟩ => hnone q hq

theorem ofUse (h : SameButUse s t) (hnone : ∀ q, ¬ asked q) : Yields sel [] asked [] s t := by
  refine ofDeps h.selection (fun selected hs => ?_) hnone
  obtain ⟨selected', hs', hgen, -⟩ := generators_of_deps (fun d hd => h.deps sel ▸ hd) hs
  exact ⟨selected', hs', hgen⟩

theorem trans (h : Yields sel requests asked entries s t) (h' : Yields sel requests' asked' entries' t r)
    {both : Ask → Prop} (hboth : ∀ q, both q ↔ asked q ∨ asked' q) :
    Yields sel (requests ++ requests') both (entries ++ entries') s r where
  generators selected hs := by
    obtain ⟨selected', ht, he⟩ := h.generators selected hs
    obtain ⟨selected'', hr, he'⟩ := h'.generators selected' ht
    exact ⟨selected'', hr, by
      rw [he', he, DependencyContainer.appendAll, DependencyContainer.appendAll,
        DependencyContainer.appendAll, List.foldl_append]⟩
  answers rest := by rw [List.append_assoc, h.answers, h'.answers, List.append_assoc]
  entered p := by
    rw [List.mem_append, h.entered, h'.entered]
    simp only [hboth, or_and_right, exists_or]
  returned q hq := ((hboth q).mp hq).elim (h.returned q) (h'.returned q)
  asks p := by
    rw [List.mem_append, h.asks, h'.asks]
    simp only [hboth, or_and_right, exists_or]

/-- A request has an entry just where one of its calls found a slot for it. -/
theorem entered_iff (h : Yields sel requests asked entries s t) (i : Fin 4) (a : Atom) :
    (i, a) ∈ entries.map entryRequest ↔
      ∃ q, asked q ∧ q.list = i ∧ q.atom = a ∧ ¬ q.state.LacksSlot q.atom := by
  constructor
  · intro hmem
    obtain ⟨p, hp, he⟩ := List.mem_map.mp hmem
    obtain ⟨rfl, rfl⟩ := Prod.mk.inj he
    obtain ⟨q, hq, -, hlist, hatom, u, hgives⟩ := (h.entered p).mp hp
    refine ⟨q, hq, hlist.symm, hatom.symm, fun hlacks => ?_⟩
    exact absurd ((selectAtom_none_iff.mpr ⟨hlacks, rfl⟩).symm.trans hgives) (by simp)
  · rintro ⟨q, hq, rfl, rfl, hlacks⟩
    obtain ⟨hparent, ⟨found, u⟩, hreturns⟩ := h.returned q hq
    cases found with
    | none => exact absurd (selectAtom_none_iff.mp hreturns).1 hlacks
    | some x =>
      refine List.mem_map.mpr ⟨(q.list, { atom := q.atom, sel := x }), (h.entered _).mpr ?_, rfl⟩
      exact ⟨q, hq, hparent, rfl, rfl, u, hreturns⟩

end Yields

/-- The call that is made for an atom is the only one, and answered with nothing. -/
theorem yields_none {sel : Nat} {s t : Emerge} {i : Fin 4} {atom : Atom}
    (h : selectAtom (some sel) atom s = .ok (none, t)) :
    Yields sel [(i, atom)] (fun q => q = { state := s, parent := some sel, list := i, atom := atom }) [] s t where
  generators selected hs := by
    obtain ⟨selected', ht, hgen, -⟩ :=
      generators_of_deps (fun d hd => (selectAtomOver_effect h).deps hd) hs
    exact ⟨selected', ht, hgen⟩
  answers rest := by
    rw [List.singleton_append, answered, h]
    rfl
  entered p := by
    refine iff_of_false List.not_mem_nil ?_
    rintro ⟨_, rfl, -, -, -, u, hgives⟩
    exact absurd (h.symm.trans hgives) (by simp)
  returned := by
    rintro _ rfl
    exact ⟨rfl, _, h⟩
  asks p := by
    rw [List.mem_singleton, exists_eq_left]
    exact eq_comm

theorem yields_some {sel target : Nat} {s t v w : Emerge} {i : Fin 4} {atom : Atom}
    (h : selectAtom (some sel) atom s = .ok (some target, t)) (huse : SameButUse t v)
    (happ : appendGenerator sel i { atom := atom, sel := target } v = (.ok (), w)) :
    Yields sel [(i, atom)] (fun q => q = { state := s, parent := some sel, list := i, atom := atom })
      [(i, { atom := atom, sel := target })] s w := by
  obtain rfl : (appendGenerator sel i { atom := atom, sel := target } v).2 = w := by rw [happ]
  refine ⟨fun selected hs => ?_, fun rest => ?_, fun p => ?_, ?_, fun p => ?_⟩
  · have hdeps : ∀ d, s.deps sel = some d → v.deps sel = some d := fun d hd =>
      huse.deps sel ▸ (selectAtomOver_effect h).deps hd
    obtain ⟨selected', hv, hgen, -⟩ := generators_of_deps hdeps hs
    refine ⟨_, by rw [appendGenerator, modifySel_self, hv]; rfl, ?_⟩
    rw [← hgen]
    rfl
  · rw [List.singleton_append, answered, h]
    refine congrArg (_ :: ·) (answered_congr _ rest ?_)
    rw [huse.selection]
    refine (modifySel_selection sel ?_ v).symm
    exact fun _ => rfl
  · rw [List.mem_singleton, exists_eq_left]
    obtain ⟨j, g⟩ := p
    constructor
    · intro he
      obtain ⟨rfl, rfl⟩ := Prod.mk.inj he
      exact ⟨rfl, rfl, rfl, t, h⟩
    · rintro ⟨-, rfl, hatom, u, hgives⟩
      obtain ⟨htarget, -⟩ : target = g.sel ∧ t = u := by simpa using h.symm.trans hgives
      obtain ⟨a, x⟩ := g
      exact congrArg (Prod.mk _) (congrArg₂ Generator.mk hatom htarget.symm)
  · rintro _ rfl
    exact ⟨rfl, _, h⟩
  · rw [List.mem_singleton, exists_eq_left]
    exact eq_comm

theorem resolveSingle_yields {sel : Nat} {i : Fin 4} {useOperator : UseOperator} {useCondition : Nat}
    {atom : Option Atom} {children : DependTree} {s w : Emerge}
    (h : resolveTurn selectAtom (some sel) (appendGenerator sel i) useOperator useCondition atom children s =
      (.ok (), w)) :
    ∃ entries, Yields sel ((requestedAtom atom).map (i, ·)) (resolveSingleAsks (some sel) i atom s) entries s w := by
  obtain ⟨r, v, h, hyield⟩ := bind_ok.mp h
  cases atom with
  | none =>
    obtain ⟨_, u, hc, hr⟩ := bind_ok.mp h
    obtain ⟨rfl, rfl⟩ := pure_ok.mp hr
    obtain ⟨-, rfl⟩ := pure_ok.mp hyield
    refine ⟨[], Yields.ofUse ((resolveCondition_useOnly sel _ _ _).same.ok hc) ?_⟩
    rintro q ⟨a, ha, -⟩
    exact List.not_mem_nil ha
  | some atom =>
    simp only [resolveSingle] at h
    by_cases hb : atom.blocks = .none
    · have hone : resolveSingleAsks (some sel) i (some atom) s =
          fun q => q = { state := s, parent := some sel, list := i, atom := atom } := by
        funext q
        simp [resolveSingleAsks, requestedAtom, hb]
      rw [if_neg (not_not.mpr hb)] at h
      rw [requestedAtom, if_pos hb, hone]
      obtain ⟨found, t, hselect, hrest⟩ := bind_ok.mp h
      have hsel := ofCall_ok.mp hselect
      cases found with
      | none =>
        simp only at hrest
        split_ifs at hrest with huse
        · obtain ⟨rfl, rfl⟩ := pure_ok.mp hrest
          obtain ⟨-, rfl⟩ := pure_ok.mp hyield
          exact ⟨[], yields_none hsel⟩
        · exact absurd hrest throw_ok
      | some target =>
        obtain ⟨_, u, huse, hr⟩ := bind_ok.mp hrest
        obtain ⟨rfl, rfl⟩ := pure_ok.mp hr
        have hsame : UseOnly target (atom.useflags.forM (requireUse target)) :=
          UseOnly.forM fun use _ => requireUse_useOnly target use
        exact ⟨_, yields_some hsel (hsame.same.ok huse) hyield⟩
    · rw [if_pos hb] at h
      obtain ⟨_, u, hblock, hr⟩ := bind_ok.mp h
      obtain ⟨rfl, rfl⟩ := pure_ok.mp hr
      obtain ⟨-, rfl⟩ := pure_ok.mp hyield
      rw [requestedAtom, if_neg hb]
      refine ⟨[], Yields.ofUse ((addBlock_useOnly sel atom).same.ok hblock) ?_⟩
      rintro q ⟨a, ha, -⟩
      simp [requestedAtom, hb] at ha

theorem resolveAll_yields {sel : Nat} {i : Fin 4} {expression : DependTree} {s w : Emerge}
    (h : resolveAll selectAtom (some sel) (appendGenerator sel i) expression s = (.ok (), w)) :
    ∃ entries, Yields sel (expression.topAtoms.map (i, ·))
      (resolveAllAsks selectAtom (some sel) i (appendGenerator sel i) expression s) entries s w := by
  induction expression generalizing s with
  | null =>
    obtain ⟨-, rfl⟩ := pure_ok.mp h
    exact ⟨[], Yields.ofUse (sameButUse_refl s) fun _ => id⟩
  | node useOperator useCondition atom children next _ ih =>
    rw [resolveAll_node] at h
    obtain ⟨_, u, hturn, hnext⟩ := bind_ok.mp h
    obtain ⟨entries, hsingle⟩ := resolveSingle_yields hturn
    obtain ⟨entries', hrest⟩ := ih hnext
    rw [DependTree.topAtoms, List.map_append]
    exact ⟨_, hsingle.trans hrest (Points.andThen_iff hturn)⟩

theorem forM_yields {sel : Nat} {metadata : Metadata} {l : List (Fin 4)} {s w : Emerge}
    (h : (l.forM fun i => resolveAll selectAtom (some sel) (appendGenerator sel i)
      (metadata.depTypes i)) s = (.ok (), w)) :
    ∃ entries, Yields sel (l.flatMap fun i => (metadata.depTypes i).topAtoms.map (i, ·))
      (Points.along (fun i => resolveAll selectAtom (some sel) (appendGenerator sel i) (metadata.depTypes i))
        (fun i => resolveAllAsks selectAtom (some sel) i (appendGenerator sel i) (metadata.depTypes i)) l s)
      entries s w := by
  induction l generalizing s with
  | nil =>
    obtain ⟨-, rfl⟩ := pure_ok.mp h
    exact ⟨[], Yields.ofUse (sameButUse_refl s) fun _ => id⟩
  | cons i l ih =>
    obtain ⟨v, hi, hl⟩ := forM_ok.mp h
    obtain ⟨entries, hfirst⟩ := resolveAll_yields hi
    obtain ⟨entries', hrest⟩ := ih hl
    exact ⟨_, hfirst.trans hrest (Points.andThen_iff hi)⟩

namespace Emerge

/-- The state in which the expressions of an ebuild are resolved, as far as
selecting is concerned. -/
def loaded (self : Emerge) (ebuild : Ebuild) : Emerge :=
  if self.metadataInit ebuild then self else self.readMetadata ebuild

/-- What the cache file of an ebuild sets. -/
def file (self : Emerge) (ebuild : Ebuild) : Metadata := (self.cache ebuild.addr).fields

theorem metadata_loaded (self : Emerge) (ebuild : Ebuild) :
    (self.loaded ebuild).metadata ebuild = self.file ebuild := by
  rw [loaded]
  split_ifs with h
  · rw [metadataInit, Bool.and_eq_true, decide_eq_true_eq] at h
    rw [metadata, if_pos h.1, file]
  · rw [metadata, readMetadata, if_pos List.mem_cons_self, file]

theorem selection_loaded (self : Emerge) (ebuild : Ebuild) :
    (self.loaded ebuild).selection = self.selection.loaded ebuild := by
  have hinit : self.selection.metadataInit ebuild = self.metadataInit ebuild := rfl
  rw [loaded, loaded, hinit]
  split_ifs <;> rfl

end Emerge

theorem loadMetadata_ok {ebuild : Ebuild} {s t : Emerge} (h : loadMetadata ebuild s = (.ok (), t)) :
    t = s.loaded ebuild := by
  obtain ⟨self, v, hget, hrest⟩ := bind_ok.mp h
  obtain ⟨rfl, rfl⟩ := get_ok.mp hget
  rw [loaded]
  split_ifs at hrest ⊢ with hinit
  · exact (pure_ok.mp hrest).2.symm
  · rw [initializeMetadata] at hrest
    exact (Prod.mk.inj hrest).2.symm

/-- A refresh comes to the expressions of the cache file with the lists emptied. -/
theorem refreshStart_ok {sel : Nat} {s t : Emerge} {selected : SelectedEbuild} {metadata : Metadata}
    (hs : s.selected[sel]? = some selected) (h : refreshStart sel s = (.ok metadata, t)) :
    metadata = s.file selected.ebuild ∧ t.selection = (s.loaded selected.ebuild).selection ∧
      ∃ selected', t.selected[sel]? = some selected' ∧ selected'.generators = .empty := by
  obtain ⟨_, s₁, hclear, h⟩ := bind_ok.mp h
  obtain ⟨selected₁, s₂, hget, h⟩ := bind_ok.mp h
  obtain ⟨_, s₃, hload, h⟩ := bind_ok.mp h
  obtain ⟨_, s₄, hflush, h⟩ := bind_ok.mp h
  obtain ⟨self, s₅, hself, h⟩ := bind_ok.mp h
  obtain ⟨_, s₆, hhook, h⟩ := bind_ok.mp h
  obtain ⟨rfl, rfl⟩ := pure_ok.mp h
  obtain rfl : (modifySel sel (fun s => { s with generators := .empty }) s).2 = s₁ := by rw [hclear]
  obtain ⟨hs₁, rfl⟩ := getSel_ok.mp hget
  obtain ⟨rfl, rfl⟩ := get_ok.mp hself
  rw [modifySel_self, hs, Option.map_some, Option.some.injEq] at hs₁
  subst hs₁
  obtain rfl := loadMetadata_ok hload
  have hflush' := (flushUse_useOnly sel).same.ok hflush
  have hsame := sameButUse_trans _ _ _ hflush' ((hookRequiredUse_useOnly sel _).same.ok hhook)
  have hcleared : (loaded (modifySel sel (fun s => { s with generators := .empty }) s).2
      selected.ebuild).selected[sel]? = some { selected with generators := .empty } := by
    have hfields : ∀ e : Emerge, (e.loaded selected.ebuild).selected = e.selected := by
      intro e
      rw [loaded]
      split_ifs <;> rfl
    rw [hfields, modifySel_self, hs]
    rfl
  refine ⟨(hflush'.metadata selected.ebuild).symm.trans (metadata_loaded _ _), ?_, ?_⟩
  · rw [← hsame.selection, selection_loaded, selection_loaded]
    congr 1
    refine modifySel_selection sel ?_ s
    exact fun _ => rfl
  · obtain ⟨selected', hs', hempty, -⟩ := generators_of_deps (fun d hd => hsame.deps sel ▸ hd) hcleared
    exact ⟨selected', hs', hempty⟩

/-- The generators that a refresh leaves are the answers to the calls that it made. -/
theorem refresh_generators {sel : Nat} {s t : Emerge} {selected : SelectedEbuild}
    (hs : s.selected[sel]? = some selected) (h : refresh selectAtom sel s = (.ok (), t)) :
    ∃ selected' entries u v, t.selected[sel]? = some selected' ∧
      selected'.generators = DependencyContainer.empty.appendAll entries ∧
      entries = answered (some sel) (s.file selected.ebuild).requests (s.loaded selected.ebuild) ∧
      Yields sel (s.file selected.ebuild).requests (refreshAsks selectAtom sel s) entries u v := by
  rw [refresh_eq] at h
  obtain ⟨metadata, u, hstart, h⟩ := bind_ok.mp h
  obtain ⟨_, v, hlists, hclean⟩ := bind_ok.mp h
  obtain ⟨rfl, hsel, selected₁, hu, hempty⟩ := refreshStart_ok hs hstart
  obtain rfl : (modifySel sel (fun s => { s with isDirty := false }) v).2 = t := by rw [hclean]
  obtain ⟨entries, hyields⟩ := forM_yields hlists
  have hasks : refreshAsks selectAtom sel s = Points.along
      (fun i => resolveAll selectAtom (some sel) (appendGenerator sel i) ((s.file selected.ebuild).depTypes i))
      (fun i => resolveAllAsks selectAtom (some sel) i (appendGenerator sel i)
        ((s.file selected.ebuild).depTypes i)) DependencyContainer.indices u := by
    funext q
    exact propext (Points.after_iff hstart q)
  obtain ⟨selected₂, hv, hgen⟩ := hyields.generators selected₁ hu
  refine ⟨{ selected₂ with isDirty := false }, entries, u, v, by rw [modifySel_self, hv]; rfl, ?_, ?_, ?_⟩
  · exact hgen.trans (by rw [hempty])
  · have hnil := hyields.answers []
    rw [List.append_nil, answered, List.append_nil] at hnil
    rw [← hnil]
    exact answered_congr _ _ hsel
  · rw [hasks]
    exact hyields

/-- The turns of the last loop: each entry is appended, and nothing below changes
the lists of an object of the session. -/
theorem forM_resolvedDeps {loop : ForLoop} {fuel sel : Nat} {l : List (Fin 4 × Generator)}
    {s t : Emerge} {selected : SelectedEbuild} (hs : s.selected[sel]? = some selected)
    (hsession : sel ∈ s.resolveSession)
    (h : (l.forM (resolveGenerator (regenerate (selectAtomOver loop) fuel) sel)) s = (.ok (), t)) :
    ∃ selected', t.selected[sel]? = some selected' ∧
      selected'.resolvedDeps = selected.resolvedDeps.appendAll l := by
  induction l generalizing s selected with
  | nil =>
    obtain ⟨-, rfl⟩ := pure_ok.mp h
    exact ⟨selected, hs, rfl⟩
  | cons p l ih =>
    obtain ⟨v, hturn, hrest⟩ := forM_ok.mp h
    obtain ⟨_, u, hresolved, happ⟩ := bind_ok.mp hturn
    have hkeeps : Keeps sel s u := by
      refine ((keeps_frame loop sel).getResolved (fun z hz => ?_) p.2.sel).ok hresolved
      exact (keeps_frame loop sel).regenerate fuel hz
    obtain ⟨hmem, hdeps⟩ := hkeeps hsession
    obtain ⟨selected', hs', -, hres⟩ := generators_of_deps hdeps hs
    obtain ⟨hnew, hsame⟩ := modifySel_ok happ
    rw [hs', Option.map_some] at hnew
    obtain ⟨selected'', hs'', hres''⟩ := ih hnew (hsame ▸ hmem) hrest
    refine ⟨selected'', hs'', ?_⟩
    rw [hres'', hres]
    rfl

theorem session_frame (loop : ForLoop) (sel : Nat) : Frame (selectAtomOver loop) (fun _ => True)
    (fun _ => True) (fun s t => sel ∈ s.resolveSession → sel ∈ t.resolveSession) where
  trans _ _ _ h h' hs := h' (h hs)
  use _ _ h hs := h.resolveSession ▸ hs
  deps _ _ _ _ _ hs := hs
  session _ _ _ _ hs := List.mem_cons_of_mem _ hs
  skip _ _ _ h := absurd trivial h
  files _ _ := .inl fun _ _ _ => trivial
  select parent atom _ s := by
    rcases ofCall_state (selectAtomOver loop parent atom) s with he | ⟨a, t, h, he⟩
    · rw [he]
      exact id
    · rw [he, (selectAtomOver_effect h).session]
      exact id
  load _ _ hs := hs

/-- After `regenerate` the resolved dependencies are the generators it found or
kept. -/
theorem regenerate_resolvedDeps {loop : ForLoop} {fuel sel : Nat} {s t : Emerge}
    (hsession : sel ∈ s.resolveSession)
    (h : regenerate (selectAtomOver loop) fuel sel s = (.ok (), t)) :
    ∃ v selected selected', refreshIfDirty (selectAtomOver loop) sel s = (.ok (), v) ∧
      v.selected[sel]? = some selected ∧ t.selected[sel]? = some selected' ∧
        selected'.resolvedDeps = selected.generators := by
  cases fuel with
  | zero => exact absurd h throw_ok
  | succ fuel =>
    obtain ⟨_, v, hrefresh, h⟩ := bind_ok.mp h
    obtain ⟨_, u, hclear, h⟩ := bind_ok.mp h
    obtain ⟨selected, w, hget, hloop⟩ := bind_ok.mp h
    obtain ⟨hs, rfl⟩ := getSel_ok.mp hget
    obtain ⟨hu, hsame⟩ := modifySel_ok hclear
    have hmem : sel ∈ v.resolveSession :=
      ((session_frame loop sel).refreshIfDirty trivial).ok hrefresh hsession
    obtain ⟨selected', ht, hres⟩ := forM_resolvedDeps hs (hsame ▸ hmem) hloop
    rw [hu] at hs
    obtain ⟨selected₀, hs₀, rfl⟩ := Option.map_eq_some_iff.mp hs
    refine ⟨v, selected₀, selected', hrefresh, hs₀, ht, ?_⟩
    rw [hres]
    exact DependencyContainer.appendAll_entries _

namespace Emerge

/-- Whether a flag is on for an object, by the id of the flag. -/
def flagOn (self : Emerge) (sel id : Nat) : Bool :=
  match self.getUseFlag id, self.selected[sel]? with
  | some flag, some selected =>
    match UseFlags.getUse { useflags := selected.useflags, iuse := (self.metadata selected.ebuild).iuse }
        (some flag.name) with
    | .ok use => use.state
    | .error _ => false
  | _, _ => false

/-- The expressions suit the lists they are sorted into: where the object is dirty,
the atoms outside of all conditions of each expression are those whose conditions are met of the
expression that belongs there, and each has a slot in a state it is asked for in; else what was found
before is. -/
def Suits (self : Emerge) (sel : Nat) (selected : SelectedEbuild) (σ : Nat → Bool) : Prop :=
  if selected.isDirty then
    (∀ i a, a ∈ ((self.file selected.ebuild).depTypes i).topAtoms ↔
      a ∈ ((self.file selected.ebuild).ofContainer i).activeAtoms σ) ∧
    ∀ i, ∀ a ∈ ((self.file selected.ebuild).depTypes i).topAtoms,
      ∃ q, refreshAsks selectAtom sel self q ∧ q.list = i ∧ q.atom = a ∧ ¬ q.state.LacksSlot q.atom
  else selected.generators.HoldsActive (self.file selected.ebuild) σ

/-- The entry is what `select_atom` has answered: in the refresh of the object where it is dirty,
else in a call of the run up to here, unless the run began with it. -/
def AnsweredIn (self start : Emerge) (calls : List EmergeCall) (sel : Nat) (selected : SelectedEbuild)
    (p : Fin 4 × Generator) : Prop :=
  if selected.isDirty then ∃ q, refreshAsks selectAtom sel self q ∧ q.Answers selectAtom (sel, p)
  else start.HasEntry (sel, p) ∨ ∃ q, runAsks search calls start q ∧ q.Answers selectAtom (sel, p)

/-- The resolved dependencies of an object are those its flags ask for, resolved so. -/
def ResolvedActive (self : Emerge) (sel : Nat) (file : Metadata) (σ : Nat → Bool)
    (resolved : Fin 4 × Generator → Prop) : Prop :=
  ∃ selected, self.selected[sel]? = some selected ∧ selected.resolvedDeps.HoldsActive file σ ∧
    ∀ i, ∀ g ∈ selected.resolvedDeps.getItem i, resolved (i, g)

end Emerge

/-- What is answered, asked in order from the loaded state, has a slot where a refresh asks for it. -/
theorem refresh_answered {sel : Nat} {s t : Emerge} {selected : SelectedEbuild}
    (hs : s.selected[sel]? = some selected) (h : refresh selectAtom sel s = (.ok (), t)) (i : Fin 4) (a : Atom) :
    (i, a) ∈ (answered (some sel) (s.file selected.ebuild).requests (s.loaded selected.ebuild)).map entryRequest ↔
      ∃ q, refreshAsks selectAtom sel s q ∧ q.list = i ∧ q.atom = a ∧ ¬ q.state.LacksSlot q.atom := by
  obtain ⟨_, entries, _, _, -, -, rfl, hyields⟩ := refresh_generators hs h
  exact hyields.entered_iff i a

theorem getItem_appendAll {entries : List (Fin 4 × Generator)} {i : Fin 4} {g : Generator} :
    g ∈ (DependencyContainer.empty.appendAll entries).getItem i ↔ (i, g) ∈ entries := by
  rw [DependencyContainer.getItem_appendAll, DependencyContainer.getItem_empty, List.nil_append]
  simp only [List.mem_map, List.mem_filter, decide_eq_true_eq]
  constructor
  · rintro ⟨p, ⟨hp, rfl⟩, rfl⟩
    exact hp
  · exact fun hp => ⟨(i, g), ⟨hp, rfl⟩, rfl⟩

theorem mem_getItem_appendAll {entries : List (Fin 4 × Generator)} {i : Fin 4} {a : Atom} :
    a ∈ ((DependencyContainer.empty.appendAll entries).getItem i).map Generator.atom ↔
      (i, a) ∈ entries.map entryRequest := by
  simp only [List.mem_map, getItem_appendAll, entryRequest, Prod.mk.injEq]
  constructor
  · rintro ⟨g, hg, rfl⟩
    exact ⟨(i, g), hg, rfl, rfl⟩
  · rintro ⟨p, hp, rfl, rfl⟩
    exact ⟨p.2, hp, rfl⟩

/-- A call of `regenerate` that returns leaves the dependencies the flags ask for, each with an
answer of `select_atom`, exactly where the expressions suit the lists. -/
theorem regenerate_resolvedActive_iff {start s t : Emerge} {calls : List EmergeCall} {fuel sel : Nat}
    {selected : SelectedEbuild} (hrun : calls.foldl (EmergeCall.step search) start = s)
    (hs : s.selected[sel]? = some selected) (hsession : sel ∈ s.resolveSession)
    (h : regenerate selectAtom fuel sel s = (.ok (), t)) (σ : Nat → Bool) :
    t.ResolvedActive sel (s.file selected.ebuild) σ (s.AnsweredIn start calls sel selected) ↔
      s.Suits sel selected σ := by
  obtain ⟨v, selected₁, selected₂, hrefresh, hv, ht, hres⟩ := regenerate_resolvedDeps hsession h
  have hgen (hall : ∀ i, ∀ g ∈ selected₁.generators.getItem i, s.AnsweredIn start calls sel selected (i, g)) :
      t.ResolvedActive sel (s.file selected.ebuild) σ (s.AnsweredIn start calls sel selected) ↔
        selected₁.generators.HoldsActive (s.file selected.ebuild) σ := by
    constructor
    · rintro ⟨selected', ht', hact, -⟩
      obtain rfl := Option.some.inj (ht.symm.trans ht')
      exact hres ▸ hact
    · exact fun hact => ⟨selected₂, ht, hres.symm ▸ hact, hres.symm ▸ hall⟩
  rw [Suits]
  obtain ⟨selected', u, hget, hif⟩ := bind_ok.mp hrefresh
  obtain ⟨hs', hu⟩ := getSel_ok.mp hget
  subst u
  obtain rfl := Option.some.inj (hs.symm.trans hs')
  split_ifs at hif ⊢ with hdirty
  · obtain ⟨selected₃, entries, _, _, hs₃, hempty, -, hyields⟩ := refresh_generators hs hif
    obtain rfl := Option.some.inj (hv.symm.trans hs₃)
    have hall : ∀ i, ∀ g ∈ selected₁.generators.getItem i, s.AnsweredIn start calls sel selected (i, g) := by
      intro i g hg
      rw [hempty, getItem_appendAll] at hg
      rw [AnsweredIn, if_pos hdirty]
      exact (hyields.entered _).mp hg
    have hasked : ∀ i a, (∃ q, refreshAsks selectAtom sel s q ∧ q.list = i ∧ q.atom = a ∧
        ¬ q.state.LacksSlot q.atom) → a ∈ ((s.file selected.ebuild).depTypes i).topAtoms := by
      rintro i a ⟨q, hq, rfl, rfl, -⟩
      exact (Metadata.mem_requests _ _ _).mp ((hyields.asks _).mpr ⟨q, hq, rfl⟩)
    rw [hgen hall]
    refine holdsActive_iff hasked fun i a => ?_
    rw [hempty, mem_getItem_appendAll, hyields.entered_iff]
  · -- what was found before is an answer that was got before
    obtain ⟨-, rfl⟩ := pure_ok.mp hif
    obtain rfl := Option.some.inj (hs.symm.trans hv)
    refine hgen fun i g hg => ?_
    rw [AnsweredIn, if_neg hdirty]
    subst hrun
    exact run_entered calls ⟨selected, hs, hg⟩

/-- One object, of an ebuild with these expressions, in the session. -/
def barEmerge (flags : UseHeap) (file : Metadata) : Emerge :=
  let bar : Ebuild := fooEbuild 9 Package.foo10
  { Emerge.init SelectionRun.fooRepository flags
      (fun addr => { fields := if addr = 9 then file else .blank, ok := true }) [] with
    selected := [SelectedEbuild.init none (SelectionRun.fooRequest .all Package.foo10) bar]
    resolveSession := [0] }

/-- `app-misc/foo` in the three expressions that change places. -/
def sameEverywhere : Metadata :=
  let foo : DependTree :=
    .node .disable 0 (some (SelectionRun.fooRequest .all Package.foo10)) .null .null
  { Metadata.blank with depend := foo, rdepend := foo, bdepend := foo }

theorem run_ok {α : Type} {c : Resolution α} {s : Emerge} (h : (c s).1.isOk = true) :
    ∃ a, c s = (.ok a, (c s).2) := by
  rcases hc : c s with ⟨r, t⟩
  rw [hc] at h
  cases r with
  | error e => exact absurd h (by simp [Except.isOk, Except.toBool])
  | ok a => exact ⟨a, rfl⟩

theorem regenerate_resolvedActive_same : ∃ t,
    regenerate selectAtom 2 0 (barEmerge UseHeap.init sameEverywhere) = (.ok (), t) ∧
      t.ResolvedActive 0 sameEverywhere (t.flagOn 0) fun p =>
        ∃ q, refreshAsks selectAtom 0 (barEmerge UseHeap.init sameEverywhere) q ∧
          q.Answers selectAtom (0, p) := by
  obtain ⟨⟨⟩, h⟩ := run_ok (c := regenerate selectAtom 2 0)
    (s := barEmerge UseHeap.init sameEverywhere) (by decide +kernel)
  let bar : SelectedEbuild := SelectedEbuild.init none (SelectionRun.fooRequest .all Package.foo10)
    (fooEbuild 9 Package.foo10)
  have hs : (barEmerge UseHeap.init sameEverywhere).selected[0]? = some bar := rfl
  have hfile : (barEmerge UseHeap.init sameEverywhere).file bar.ebuild = sameEverywhere := rfl
  have hrun : [].foldl (EmergeCall.step search) (barEmerge UseHeap.init sameEverywhere) =
    barEmerge UseHeap.init sameEverywhere := rfl
  refine ⟨_, h, (regenerate_resolvedActive_iff hrun hs List.mem_cons_self h _).mpr ?_⟩
  rw [Suits, hfile, if_pos (show bar.isDirty = true from rfl)]
  refine ⟨fun i a => ?_, fun i a ha => ?_⟩
  · fin_cases i <;> exact Iff.rfl
  · obtain ⟨⟨⟩, hrefresh⟩ := run_ok (c := refresh selectAtom 0) (s := barEmerge UseHeap.init sameEverywhere)
      (by decide +kernel)
    have hall : ∀ p ∈ sameEverywhere.requests, p ∈ (answered (some 0) sameEverywhere.requests
        ((barEmerge UseHeap.init sameEverywhere).loaded bar.ebuild)).map entryRequest := by
      decide +kernel
    exact (refresh_answered hs hrefresh i a).mp (hall (i, a) ((Metadata.mem_requests _ i a).mpr ha))

/-- With `a` on, `app-misc/foo` is asked for by `a? ( app-misc/foo )`, and no list
gets it. -/
def guardedFoo (id : Nat) : Metadata :=
  { Metadata.blank with
    pdepend := .node .enable id none
      (.node .disable 0 (some (SelectionRun.fooRequest .all Package.foo10)) .null .null) .null
    iuse := [(['a'], { name := ['a'], state := true })] }

theorem guarded_not_resolved : ¬ ∀ (fuel sel : Nat) (s t : Emerge) (selected : SelectedEbuild),
    s.selected[sel]? = some selected → sel ∈ s.resolveSession →
    regenerate selectAtom fuel sel s = (.ok (), t) →
      t.ResolvedActive sel (s.file selected.ebuild) (t.flagOn sel) (s.AnsweredIn s [] sel selected) := by
  intro hall
  let flags := (UseHeap.init.useGetGlobal (some ['a'])).getD (UseHeap.init, 0)
  let s := barEmerge flags.1 (guardedFoo flags.2)
  obtain ⟨⟨⟩, h⟩ := run_ok (c := regenerate selectAtom 2 0) (s := s) (by decide +kernel)
  have hact := hall 2 0 s _ _ rfl List.mem_cons_self h
  have hnone : ((regenerate selectAtom 2 0 s).2.selected[0]?).map
      (fun selected => (selected.resolvedDeps.getItem 3).map Generator.atom) = some [] := by
    decide +kernel
  have hon : SelectionRun.fooRequest .all Package.foo10 ∈ ((s.file (fooEbuild 9 Package.foo10)).ofContainer
      3).activeAtoms ((regenerate selectAtom 2 0 s).2.flagOn 0) := by
    decide +kernel
  obtain ⟨selected', hs', hholds, -⟩ := hact
  rw [hs', Option.map_some, Option.some.injEq] at hnone
  have hmem := (hholds 3 _).mpr hon
  rw [hnone] at hmem
  exact absurd hmem (by simp)

end AutoGentoo
