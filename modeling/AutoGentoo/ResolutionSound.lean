import AutoGentoo.CompleteGenerators
import AutoGentoo.SessionReach

/-! What a resolution comes to where the requests agree: a set of ebuilds, one for each
package, in which every request of a member is answered. -/

namespace AutoGentoo

open StateExcept Emerge GuardedRun

/-- The branch of `regenerate` for a dirty object, but for its last step. -/
def gather (select : Select) (sel : Nat) : Resolution Unit := do
  modifySel sel fun s => { s with generators := .empty }
  let selected ← getSel sel
  loadMetadata selected.ebuild
  flushUse sel
  let self ← get
  let metadata := self.metadata selected.ebuild
  hookRequiredUse sel metadata.requiredUse
  DependencyContainer.indices.forM fun i =>
    resolveAll select (some sel) (appendGenerator sel i) (metadata.depTypes i)

theorem refresh_gather (select : Select) (sel : Nat) : refresh select sel =
    gather select sel >>= fun _ => modifySel sel fun s => { s with isDirty := false } := by
  simp only [refresh, gather, bind_assoc]

namespace Emerge

variable {o s t r : Emerge} {asks : Atom → Prop} {loop : ForLoop}

theorem loadMetadata_works (ebuild : Ebuild) : Respects (Works o asks) (loadMetadata ebuild) := by
  refine (respects_get works_refl).bind works_trans fun self => ?_
  split_ifs
  · exact respects_pure works_refl _
  · exact fun s hs => ⟨hs.congr rfl rfl rfl rfl (.refl s), .refl s, dirties_refl s⟩

theorem gather_worksOn (ho : o.Agreeing asks) (sel : Nat) :
    Respects (WorksOn o asks sel) (gather (selectAtomOver loop) sel) := by
  have hflush : Respects (Works o asks) (flushUse sel) :=
    UseOnly.works (flushUse_useOnly sel) (flushUse_dirties sel)
  have hhook : ∀ expression, Respects (Works o asks) (hookRequiredUse sel expression) := fun expression =>
    UseOnly.works (hookRequiredUse_useOnly sel expression) (hookRequiredUse_dirties sel expression)
  have hget : Respects (Works o asks) (getSel sel) :=
    UseOnly.works (getSel_useOnly sel sel) (dirties_of_sameCore (getSel_sameCore sel))
  have hclear : Respects (WorksOn o asks sel) (modifySel sel fun s => { s with generators := .empty }) := by
    refine modifySel_worksOn sel ?_ ?_
    · exact fun _ => rfl
    · exact fun _ => rfl
  refine hclear.bind worksOn_trans fun _ => ?_
  refine (worksOn_of_works hget).bind worksOn_trans fun selected => ?_
  refine (worksOn_of_works (loadMetadata_works _)).bind worksOn_trans fun _ => ?_
  refine (worksOn_of_works hflush).bind worksOn_trans fun _ => ?_
  refine respects_get_bind fun s => ?_
  by_cases hs : s.Lone o asks
  · refine (worksOn_of_works (hhook _)).bind worksOn_trans (fun _ => ?_) s
    exact respects_forM worksOn_refl worksOn_trans fun i _ =>
      resolveAll_worksOn ho sel i fun a ha => ho.asked hs ha
  · exact fun _ hlone => absurd hlone hs

theorem Lone.file_eq (hs : s.Lone o asks) (ht : t.Lone o asks) (ebuild : Ebuild) : t.file ebuild = s.file ebuild := by
  rw [file, file, hs.cache, ht.cache]

theorem gather_provides (ho : o.Agreeing asks) {sel : Nat} (hs : s.Lone o asks)
    (h : gather (selectAtomOver loop) sel s = (.ok (), t)) :
    ∃ b : SelectedEbuild, t.selected[sel]? = some b ∧ t.Provides (t.file b.ebuild) b.generators := by
  obtain ⟨_, s₁, hclear, h⟩ := bind_ok.mp h
  obtain ⟨a, s₂, hget, h⟩ := bind_ok.mp h
  obtain ⟨_, s₃, hload, h⟩ := bind_ok.mp h
  obtain ⟨_, s₄, hflush, h⟩ := bind_ok.mp h
  obtain ⟨self, s₅, hself, h⟩ := bind_ok.mp h
  obtain ⟨_, s₆, hhook, hloop⟩ := bind_ok.mp h
  obtain ⟨ha, rfl⟩ := getSel_ok.mp hget
  obtain ⟨rfl, rfl⟩ := get_ok.mp hself
  obtain rfl := loadMetadata_ok hload
  have hempty : a.generators = .empty := by
    rw [(modifySel_ok hclear).1] at ha
    obtain ⟨c, -, rfl⟩ := Option.map_eq_some_iff.mp ha
    rfl
  have hs₂ : s₂.Lone o asks := by
    refine ((modifySel_staysLone sel ?_).ok hclear hs).1
    exact fun _ => rfl
  have hloaded := (loadMetadata_works a.ebuild).ok hload hs₂
  have hflushed := (flushUse_useOnly sel).same.ok hflush
  have hsame := sameButUse_trans _ _ _ hflushed ((hookRequiredUse_useOnly sel _).same.ok hhook)
  have hlone := hsame.staysLone hloaded.1
  have hfile : s₅.metadata a.ebuild = s₂.file a.ebuild :=
    (hflushed.metadata a.ebuild).symm.trans (metadata_loaded _ _)
  have hasks : ∀ i, ∀ atom ∈ ((s₅.metadata a.ebuild).depTypes i).topAtoms, asks atom :=
    fun i atom hatom => ho.asked (hflushed.staysLone hloaded.1).1 hatom
  have hkeeps : s₆.KeepsEbuilds t := by
    refine ((respects_forM (lone_frame ho loop).refl staysLone_trans fun i _ => ?_).ok hloop hlone.1).2
    refine (lone_frame ho loop).resolveAll (some sel) (fun dep => ?_) (hasks i)
    refine modifySel_staysLone sel ?_
    exact fun _ => rfl
  have ht : t.Lone o asks := by
    refine ((respects_forM (lone_frame ho loop).refl staysLone_trans fun i _ => ?_).ok hloop hlone.1).1
    refine (lone_frame ho loop).resolveAll (some sel) (fun dep => ?_) (hasks i)
    refine modifySel_staysLone sel ?_
    exact fun _ => rfl
  obtain ⟨entries, hrequests, hanswers, hgenerators⟩ := forM_collects ho hasks hlone.1 hloop
  -- up to the expressions the object keeps its ebuild and its empty generators
  have hsame₂ : ∀ d, s₂.deps sel = some d → s₆.deps sel = some d := by
    intro d hd
    have hfields : (s₂.loaded a.ebuild).selected = s₂.selected := by
      rw [loaded]
      split_ifs <;> rfl
    rw [← hsame.deps sel, Emerge.deps, hfields]
    exact hd
  obtain ⟨c, hc, hcgenerators, -⟩ := generators_of_deps hsame₂ ha
  obtain ⟨b, hb, hbc⟩ := hgenerators c hc
  obtain ⟨b', hb', hebuild⟩ := ((hloaded.2.1.trans hlone.2).trans hkeeps) sel a ha
  obtain rfl := Option.some.inj (hb.symm.trans hb')
  refine ⟨b, hb, entries, by rw [hbc, hcgenerators, hempty], ?_, hanswers⟩
  rw [hrequests, hfile, hebuild, hs₂.file_eq ht]
  rfl

/-- What is not dirty has an answer to each of its requests. -/
def Complete (s : Emerge) : Prop := ∀ (x : Nat) (a : SelectedEbuild), s.selected[x]? = some a →
  a.isDirty = false → s.Provides (s.file a.ebuild) a.generators

/-- One object for each package stays, with the same ebuilds, and what is clean is complete. -/
def Completes (o : Emerge) (asks : Atom → Prop) (s t : Emerge) : Prop :=
  s.Lone o asks → s.Complete → t.Lone o asks ∧ t.Complete ∧ s.KeepsEbuilds t

theorem completes_refl (s : Emerge) : Completes o asks s s := fun hs hc => ⟨hs, hc, .refl s⟩

theorem completes_trans (s t r : Emerge) (h : Completes o asks s t) (h' : Completes o asks t r) :
    Completes o asks s r := by
  intro hs hc
  obtain ⟨ht, htc, hst⟩ := h hs hc
  obtain ⟨hr, hrc, htr⟩ := h' ht htc
  exact ⟨hr, hrc, hst.trans htr⟩

theorem Works.completes (h : Works o asks s t) : Completes o asks s t := by
  intro hs hc
  obtain ⟨ht, hkeeps, hdirties⟩ := h hs
  refine ⟨ht, fun x b hb hclean => ?_, hkeeps⟩
  obtain ⟨a, ha, haclean, hgenerators⟩ := hdirties x b hb hclean
  obtain ⟨b', hb', hebuild⟩ := hkeeps x a ha
  obtain rfl := Option.some.inj (hb.symm.trans hb')
  rw [hebuild, hs.file_eq ht, ← hgenerators]
  exact (hc x a ha haclean).keeps hkeeps

theorem refresh_completes (ho : o.Agreeing asks) {sel : Nat} (hdirty : s.Dirty sel) :
    Completes o asks s (refresh (selectAtomOver loop) sel s).2 := by
  intro hs hc
  have hworks : Works o asks s (gather (selectAtomOver loop) sel s).2 := gather_worksOn ho sel s hdirty
  have hclean : Respects (StaysLone o asks) (modifySel sel fun s => { s with isDirty := false }) := by
    refine modifySel_staysLone sel ?_
    exact fun _ => rfl
  rw [refresh_gather]
  rcases bind_run (gather (selectAtomOver loop) sel)
    (fun _ => modifySel sel fun s => { s with isDirty := false }) s with ⟨_, u, hgather, he⟩ | ⟨e, u, hgather, he⟩
  · rw [hgather] at hworks
    obtain ⟨hu, huc, hkeeps⟩ := hworks.completes hs hc
    obtain ⟨b, hb, hprovides⟩ := gather_provides ho hs hgather
    rw [he]
    have hstays := hclean u hu
    refine ⟨hstays.1, fun x c hxc hclean => ?_, hkeeps.trans hstays.2⟩
    rw [hu.file_eq hstays.1]
    by_cases hx : sel = x
    · subst hx
      rw [modifySel_self, hb] at hxc
      obtain rfl := Option.some.inj hxc
      exact hprovides.keeps hstays.2
    · rw [modifySel_ne hx] at hxc
      exact (huc x c hxc hclean).keeps hstays.2
  · rw [hgather] at hworks
    rw [he]
    exact hworks.completes hs hc

theorem refreshIfDirty_completes (ho : o.Agreeing asks) (sel : Nat) :
    Respects (Completes o asks) (refreshIfDirty (selectAtomOver loop) sel) := by
  intro s
  rcases bind_run (getSel sel) (fun selected =>
    if selected.isDirty then refresh (selectAtomOver loop) sel else pure ()) s with
      ⟨a, t, hget, he⟩ | ⟨e, t, hget, he⟩
  · obtain ⟨ha, rfl⟩ := getSel_ok.mp hget
    rw [show refreshIfDirty (selectAtomOver loop) sel t = _ from he]
    split_ifs with hdirty
    · refine refresh_completes ho fun b hb => ?_
      rw [← Option.some.inj (ha.symm.trans hb), hdirty]
    · exact completes_refl t
  · rw [show refreshIfDirty (selectAtomOver loop) sel s = _ from he]
    have hstate := getSel_state sel s
    rw [hget] at hstate
    rw [← show t = s from hstate]
    exact completes_refl t

theorem refreshIfDirty_clean {sel : Nat} (h : refreshIfDirty (selectAtomOver loop) sel s = (.ok (), t))
    {b : SelectedEbuild} (hb : t.selected[sel]? = some b) : b.isDirty = false := by
  obtain ⟨a, u, hget, hrest⟩ := bind_ok.mp h
  obtain ⟨ha, rfl⟩ := getSel_ok.mp hget
  split_ifs at hrest with hdirty
  · rw [refresh_gather] at hrest
    obtain ⟨_, v, -, hclean⟩ := bind_ok.mp hrest
    rw [(modifySel_ok hclean).1] at hb
    obtain ⟨c, -, rfl⟩ := Option.map_eq_some_iff.mp hb
    rfl
  · obtain ⟨-, rfl⟩ := pure_ok.mp hrest
    rw [← Option.some.inj (ha.symm.trans hb)]
    exact Bool.not_eq_true _ ▸ hdirty

theorem session_completes (session : List Nat) (s : Emerge) :
    Completes o asks s { s with resolveSession := session } := fun hs hc =>
  ⟨hs.congr rfl rfl rfl rfl (.refl s), hc, .refl s⟩

theorem resolvedDeps_completes (sel : Nat) (f : SelectedEbuild → DependencyContainer Generator) :
    Respects (Completes o asks) (modifySel sel fun s => { s with resolvedDeps := f s }) := by
  intro s hs
  have hstays : Respects (StaysLone o asks) (modifySel sel fun s => { s with resolvedDeps := f s }) := by
    refine modifySel_staysLone sel ?_
    exact fun _ => rfl
  have hdirties : Respects Dirties (modifySel sel fun s => { s with resolvedDeps := f s }) :=
    modifySel_dirties sel fun _ hclean => ⟨hclean, rfl⟩
  exact Works.completes (fun hs => ⟨(hstays s hs).1, (hstays s hs).2, hdirties s⟩) hs

theorem getResolved_completes {regenerate : Nat → Resolution Unit}
    (h : ∀ sel, Respects (Completes o asks) (regenerate sel)) (sel : Nat) :
    Respects (Completes o asks) (getResolved regenerate sel) := by
  intro s
  by_cases hmem : sel ∈ s.resolveSession
  · rw [getResolved_of_mem _ hmem]
    exact completes_refl s
  · rw [getResolved_of_notMem _ hmem]
    exact completes_trans _ _ _ (session_completes _ s) (h sel _)

theorem regenerate_completes (ho : o.Agreeing asks) (fuel sel : Nat) :
    Respects (Completes o asks) (regenerate (selectAtomOver loop) fuel sel) := by
  induction fuel generalizing sel with
  | zero => exact respects_throw completes_refl _
  | succ fuel ih =>
    refine (refreshIfDirty_completes ho sel).bind completes_trans fun _ => ?_
    refine (resolvedDeps_completes sel _).bind completes_trans fun _ => ?_
    have hget : Respects (Completes o asks) (getSel sel) := fun s => by
      rw [getSel_state]
      exact completes_refl s
    refine hget.bind completes_trans fun selected => ?_
    refine respects_forM completes_refl completes_trans fun p _ => ?_
    exact (getResolved_completes ih p.2.sel).bind completes_trans fun _ => resolvedDeps_completes sel _

/-- The resolved dependencies of an object have an answer to each of its requests. -/
def Settled (s : Emerge) (x : Nat) : Prop :=
  ∃ a : SelectedEbuild, s.selected[x]? = some a ∧ s.Provides (s.file a.ebuild) a.resolvedDeps

theorem Settled.keeps {x : Nat} (h : s.Settled x) (hs : s.Lone o asks) (ht : t.Lone o asks)
    (hkeeps : s.KeepsEbuilds t) (hdeps : ∀ d, s.deps x = some d → t.deps x = some d) : t.Settled x := by
  obtain ⟨a, ha, hprovides⟩ := h
  obtain ⟨b, hb, -, hresolved⟩ := generators_of_deps hdeps ha
  obtain ⟨b', hb', hebuild⟩ := hkeeps x a ha
  obtain rfl := Option.some.inj (hb.symm.trans hb')
  refine ⟨b, hb, ?_⟩
  rw [hebuild, hs.file_eq ht, hresolved]
  exact hprovides.keeps hkeeps

theorem resolveGenerators_keeps {fuel sel x : Nat} (hne : sel ≠ x) (l : List (Fin 4 × Generator)) :
    Respects (Keeps x) (l.forM (resolveGenerator (regenerate (selectAtomOver loop) fuel) sel)) := by
  have hframe := keeps_frame loop x
  refine respects_forM hframe.refl hframe.trans fun p _ => ?_
  exact hframe.bind (hframe.getResolved (fun z hz => hframe.regenerate fuel hz) p.2.sel) fun _ =>
    hframe.deps sel hne _ fun _ => rfl

/-- The last loop of `regenerate`, where the calls below it settle what they add. -/
theorem resolveGenerators_settled (ho : o.Agreeing asks) {fuel sel : Nat}
    (hresolve : ∀ z s t, s.Lone o asks → s.Complete →
      getResolved (regenerate (selectAtomOver loop) fuel) z s = (.ok (), t) →
        ∀ x ∈ t.resolveSession, x ∉ s.resolveSession → t.Settled x)
    {l : List (Fin 4 × Generator)} (hs : s.Lone o asks) (hc : s.Complete) (hsel : sel ∈ s.resolveSession)
    (h : l.forM (resolveGenerator (regenerate (selectAtomOver loop) fuel) sel) s = (.ok (), t)) :
    ∀ x ∈ t.resolveSession, x ∉ s.resolveSession → t.Settled x := by
  have hget : ∀ z, Respects (Completes o asks) (getResolved (regenerate (selectAtomOver loop) fuel) z) :=
    getResolved_completes (regenerate_completes ho fuel)
  induction l generalizing s with
  | nil =>
    obtain ⟨-, rfl⟩ := pure_ok.mp h
    exact fun x hx hnot => absurd hx hnot
  | cons p l ih =>
    obtain ⟨w, hturn, hrest⟩ := forM_ok.mp h
    obtain ⟨_, u, hresolved, happend⟩ := bind_ok.mp hturn
    obtain ⟨hu, huc, -⟩ := (hget p.2.sel).ok hresolved hs hc
    obtain ⟨hw, hwc, huw⟩ := (resolvedDeps_completes sel _).ok happend hu huc
    have hsession : w.resolveSession = u.resolveSession := (modifySel_ok happend).2
    have hselw : sel ∈ w.resolveSession :=
      hsession ▸ ((keeps_frame loop sel).getResolved
        (fun z hz => (keeps_frame loop sel).regenerate fuel hz) p.2.sel).ok hresolved hsel |>.1
    have hturns : Respects (Completes o asks)
        (l.forM (resolveGenerator (regenerate (selectAtomOver loop) fuel) sel)) :=
      respects_forM completes_refl completes_trans fun p _ =>
        (hget p.2.sel).bind completes_trans fun _ => resolvedDeps_completes sel _
    obtain ⟨ht, -, hwt⟩ := hturns.ok hrest hw hwc
    intro x hx hnot
    by_cases hxw : x ∈ w.resolveSession
    · have hne : sel ≠ x := by
        rintro rfl
        exact hnot hsel
      have hsettled := hresolve p.2.sel s u hs hc hresolved x (hsession ▸ hxw) hnot
      refine hsettled.keeps hu ht (huw.trans hwt) fun d hd => ?_
      refine ((resolveGenerators_keeps hne l).ok hrest hxw).2 d ?_
      obtain rfl : (modifySel sel _ u).2 = w := by rw [happend]
      rw [Emerge.deps, modifySel_ne hne]
      exact hd
    · exact ih hw hwc hselw hrest x hx hxw

/-- `regenerate` for an object that has just been put into the session. -/
theorem regenerate_settled (ho : o.Agreeing asks) {fuel sel : Nat} (hs : s.Lone o asks) (hc : s.Complete)
    (h : regenerate (selectAtomOver loop) fuel sel (s.opened sel) = (.ok (), t)) :
    ∀ x ∈ t.resolveSession, x ∉ s.resolveSession → t.Settled x := by
  induction fuel generalizing sel s t with
  | zero => exact absurd h throw_ok
  | succ fuel ih =>
    have hresolve : ∀ z s t, s.Lone o asks → s.Complete →
        getResolved (regenerate (selectAtomOver loop) fuel) z s = (.ok (), t) →
          ∀ x ∈ t.resolveSession, x ∉ s.resolveSession → t.Settled x := by
      intro z s t hs hc h
      by_cases hz : z ∈ s.resolveSession
      · rw [getResolved_of_mem _ hz] at h
        obtain ⟨-, rfl⟩ := Prod.mk.inj h
        exact fun x hx hnot => absurd hx hnot
      · rw [getResolved_of_notMem _ hz] at h
        exact ih hs hc h
    obtain ⟨hopened, hopenedc, -⟩ := session_completes (sel :: s.resolveSession) s hs hc
    obtain ⟨v', a, c, hrefresh', ha, hct, hresolved⟩ :=
      regenerate_resolvedDeps (s := s.opened sel) List.mem_cons_self h
    obtain ⟨_, v, hrefresh, hrest⟩ := bind_ok.mp h
    obtain rfl : v' = v := (Prod.mk.inj (hrefresh'.symm.trans hrefresh)).2
    obtain ⟨_, u, hclear, hrest⟩ := bind_ok.mp hrest
    obtain ⟨b, w, hget, hloop⟩ := bind_ok.mp hrest
    obtain ⟨hb, rfl⟩ := getSel_ok.mp hget
    obtain ⟨hv, hvc, -⟩ := (refreshIfDirty_completes ho sel).ok hrefresh hopened hopenedc
    obtain ⟨hw, hwc, hvw⟩ := (resolvedDeps_completes sel _).ok hclear hv hvc
    have hsession : w.resolveSession = sel :: s.resolveSession :=
      (modifySel_ok hclear).2.trans ((refreshIfDirty_sameSession loop sel).ok hrefresh)
    have hturns : Respects (Completes o asks)
        (b.generators.entries.forM (resolveGenerator (regenerate (selectAtomOver loop) fuel) sel)) :=
      respects_forM completes_refl completes_trans fun p _ =>
        (getResolved_completes (regenerate_completes ho fuel) p.2.sel).bind completes_trans fun _ =>
          resolvedDeps_completes sel _
    obtain ⟨ht, -, hwt⟩ := hturns.ok hloop hw hwc
    intro x hx hnot
    by_cases hxs : x = sel
    · obtain ⟨c', hc', hebuild⟩ := (hvw.trans hwt) sel a ha
      obtain rfl := Option.some.inj (hct.symm.trans hc')
      refine ⟨c, hxs ▸ hct, ?_⟩
      rw [hresolved, hebuild, hv.file_eq ht]
      exact (hvc sel a ha (refreshIfDirty_clean hrefresh ha)).keeps (hvw.trans hwt)
    · refine resolveGenerators_settled ho hresolve hw hwc (hsession ▸ List.mem_cons_self) hloop x hx ?_
      rw [hsession]
      exact List.not_mem_cons_of_ne_of_not_mem hxs hnot

theorem getResolved_settled (ho : o.Agreeing asks) {fuel sel : Nat} (hs : s.Lone o asks) (hc : s.Complete)
    (h : getResolved (regenerate (selectAtomOver loop) fuel) sel s = (.ok (), t)) :
    ∀ x ∈ t.resolveSession, x ∉ s.resolveSession → t.Settled x := by
  by_cases hmem : sel ∈ s.resolveSession
  · rw [getResolved_of_mem _ hmem] at h
    obtain ⟨-, rfl⟩ := Prod.mk.inj h
    exact fun x hx hnot => absurd hx hnot
  · rw [getResolved_of_notMem _ hmem] at h
    exact regenerate_settled ho hs hc h

end Emerge

namespace SessionCall

variable {o s t : Emerge} {asks : Atom → Prop} {loop : ForLoop}

/-- It selects for one of these atoms, if at all; only `match_atom` calls `change_within_slot`. -/
def Within (asks : Atom → Prop) : SessionCall → Prop
  | selectAtom _ atom => asks atom
  | changeWithinSlot _ _ => False
  | clear | addBlock _ | scheduleUse _ _ | addUseRequirement _ _ _ | getResolved _ _ => True

/-- The state after a call, also one that raises. -/
def step (loop : ForLoop) (s : Emerge) : SessionCall → Emerge
  | clear => { s with resolveSession := [] }
  | addBlock atom => (AutoGentoo.addBlock atom s).2
  | selectAtom parent atom => (ofCall (selectAtomOver loop parent atom) s).2
  | changeWithinSlot sel atom => (ofCall (changeWithinSlotOver loop sel atom) s).2
  | scheduleUse sel useflag => (AutoGentoo.scheduleUse sel useflag s).2
  | addUseRequirement sel name flag => (AutoGentoo.addUseRequirement sel name flag s).2
  | getResolved fuel sel => (AutoGentoo.getResolved (regenerate (selectAtomOver loop) fuel) sel s).2

theorem step_of_next {call : SessionCall} (h : call.next loop s = some t) : call.step loop s = t := by
  cases call with
  | getResolved fuel sel => rw [step, EmergeCall.returned_some.mp h]
  | clear | addBlock | selectAtom | changeWithinSlot | scheduleUse | addUseRequirement => exact Option.some.inj h

theorem step_completes (ho : o.Agreeing asks) {call : SessionCall} (hcall : call.Within asks) (s : Emerge) :
    Completes o asks s (call.step loop s) := by
  cases call with
  | clear => exact session_completes [] s
  | addBlock atom =>
    exact (UseOnly.works (addBlock_useOnly 0 atom) (dirties_of_sameCore (addBlock_sameCore atom)) s).completes
  | selectAtom parent atom => exact (select_works ho parent hcall s).completes
  | changeWithinSlot sel atom => exact absurd hcall id
  | scheduleUse sel useflag =>
    exact (UseOnly.works (scheduleUse_useOnly sel useflag) (scheduleUse_dirties sel useflag) s).completes
  | addUseRequirement sel name flag =>
    exact (UseOnly.works (addUseRequirement_useOnly sel name flag) (addUseRequirement_dirties sel name flag)
      s).completes
  | getResolved fuel sel => exact getResolved_completes (regenerate_completes ho fuel) sel s

theorem foldl_completes (ho : o.Agreeing asks) {calls : List SessionCall} (hcalls : ∀ call ∈ calls, call.Within asks)
    (s : Emerge) : Completes o asks s (calls.foldl (step loop) s) := by
  induction calls generalizing s with
  | nil => exact completes_refl s
  | cons call calls ih =>
    have hfirst : Completes o asks s (call.step loop s) := step_completes ho (hcalls call List.mem_cons_self) s
    exact completes_trans _ _ _ hfirst (ih (fun call hcall => hcalls call (List.mem_cons_of_mem _ hcall)) _)

/-- What is in the session has an answer to each of its requests. -/
def AllSettled (s : Emerge) : Prop := ∀ x ∈ s.resolveSession, s.Settled x

theorem AllSettled.calls (h : AllSettled s) (hs : s.Lone o asks) (ht : t.Lone o asks) (hkeeps : s.KeepsEbuilds t)
    (hcalls : s.Calls t) : AllSettled t := by
  intro x hx
  rw [show t.resolveSession = s.resolveSession from hcalls.1] at hx
  exact (h x hx).keeps hs ht hkeeps (hcalls.2 x)

theorem next_settled (ho : o.Agreeing asks) {call : SessionCall} (hcall : call.Within asks) (hs : s.Lone o asks)
    (hc : s.Complete) (hsettled : AllSettled s) (h : call.next loop s = some t) : AllSettled t := by
  have hstep : Completes o asks s (call.step loop s) := step_completes ho hcall s
  obtain ⟨ht, -, hkeeps⟩ := step_of_next h ▸ hstep hs hc
  cases call with
  | clear =>
    obtain rfl := Option.some.inj h
    exact fun x hx => absurd hx List.not_mem_nil
  | addBlock atom =>
    obtain rfl := Option.some.inj h
    exact hsettled.calls hs ht hkeeps ((addBlock_useOnly 0 atom).calls s)
  | selectAtom parent atom =>
    obtain rfl := Option.some.inj h
    exact hsettled.calls hs ht hkeeps (select_calls loop parent atom s)
  | changeWithinSlot sel atom => exact absurd hcall id
  | scheduleUse sel useflag =>
    obtain rfl := Option.some.inj h
    exact hsettled.calls hs ht hkeeps ((scheduleUse_useOnly sel useflag).calls s)
  | addUseRequirement sel name flag =>
    obtain rfl := Option.some.inj h
    exact hsettled.calls hs ht hkeeps ((addUseRequirement_useOnly sel name flag).calls s)
  | getResolved fuel sel =>
    have hrun := EmergeCall.returned_some.mp h
    intro x hx
    by_cases hmem : x ∈ s.resolveSession
    · have hframe := keeps_frame loop x
      refine (hsettled x hmem).keeps hs ht hkeeps ((hframe.getResolved (fun z hz => ?_) sel).ok hrun hmem).2
      exact hframe.regenerate fuel hz
    · exact Emerge.getResolved_settled ho hs hc hrun x hx hmem

theorem run_settled (ho : o.Agreeing asks) {calls : List SessionCall} (hcalls : ∀ call ∈ calls, call.Within asks)
    (hs : s.Lone o asks) (hc : s.Complete) (hsettled : AllSettled s) (h : run (next loop) s calls = some t) :
    t.Lone o asks ∧ AllSettled t := by
  induction calls generalizing s with
  | nil =>
    obtain rfl := Option.some.inj h
    exact ⟨hs, hsettled⟩
  | cons call calls ih =>
    obtain ⟨u, hu, hrest⟩ := Option.bind_eq_some_iff.mp h
    have hcall := hcalls call List.mem_cons_self
    have hstep : Completes o asks s (call.step loop s) := step_completes ho hcall s
    obtain ⟨hlone, hcomplete, -⟩ := step_of_next hu ▸ hstep hs hc
    exact ih (fun call hcall => hcalls call (List.mem_cons_of_mem _ hcall)) hlone hcomplete
      (next_settled ho hcall hs hc hsettled hu) hrest

end SessionCall

theorem requests_filter (file : Metadata) (i : Fin 4) :
    (file.requests.filter (·.1 = i)).map Prod.snd = (file.depTypes i).topAtoms := by
  fin_cases i <;>
    simp [Metadata.requests, DependencyContainer.indices, List.filter_map, Function.comp_def]

namespace Emerge

/-- The resolved dependencies of a member are, in order, the atoms of its expressions outside
of all conditions; each leads to a member of which the ebuild matches the atom. No two members
are of one package. -/
structure Sound (s : Emerge) : Prop where
  answered : ∀ x ∈ s.resolveSession, ∃ a : SelectedEbuild, s.selected[x]? = some a ∧
    (∀ i, (a.resolvedDeps.getItem i).map Generator.atom = ((s.file a.ebuild).depTypes i).topAtoms) ∧
    ∀ p ∈ a.resolvedDeps.entries, p.2.sel ∈ s.resolveSession ∧ s.Answers p.2
  alone : ∀ x ∈ s.resolveSession, ∀ y ∈ s.resolveSession, ∀ a b : SelectedEbuild, s.selected[x]? = some a →
    s.selected[y]? = some b → a.ebuild.packageKey = b.ebuild.packageKey → x = y

theorem Provides.atoms {s : Emerge} {file : Metadata} {c : DependencyContainer Generator} (h : s.Provides file c)
    (i : Fin 4) : (c.getItem i).map Generator.atom = (file.depTypes i).topAtoms := by
  obtain ⟨entries, rfl, hrequests, -⟩ := h
  rw [← requests_filter, ← hrequests, DependencyContainer.getItem_appendAll, DependencyContainer.getItem_empty,
    List.nil_append, List.filter_map, List.map_map, List.map_map]
  rfl

theorem Provides.answers {s : Emerge} {file : Metadata} {c : DependencyContainer Generator} (h : s.Provides file c)
    {p : Fin 4 × Generator} (hp : p ∈ c.entries) : s.Answers p.2 := by
  obtain ⟨entries, rfl, -, hanswers⟩ := h
  obtain ⟨i, g⟩ := p
  rw [mem_entries, DependencyContainer.getItem_appendAll, DependencyContainer.getItem_empty, List.nil_append] at hp
  obtain ⟨q, hq, rfl⟩ := List.mem_map.mp hp
  exact hanswers q (List.mem_of_mem_filter hq)

end Emerge

theorem Emerge.sound_of_settled {o t : Emerge} {asks : Atom → Prop} (ho : o.Agreeing asks) (ht : t.Lone o asks)
    (hsettled : SessionCall.AllSettled t) (hclosed : MarkedGraph.Closed t.session t.Requires) : t.Sound := by
  refine ⟨fun x hx => ?_, fun x _ y _ a b ha hb hkey => ht.packageKey_inj ho ha hb hkey⟩
  obtain ⟨a, ha, hprovides⟩ := hsettled x hx
  refine ⟨a, ha, hprovides.atoms, fun p hp => ⟨?_, hprovides.answers hp⟩⟩
  refine hclosed x hx p.2.sel ⟨(a.generators, a.resolvedDeps), ?_, p, hp, rfl⟩
  rw [Emerge.deps, ha]
  rfl

theorem lone_init (portage : Portage) (globals : UseHeap) (cache : Nat → CacheFile) (read : List Nat)
    (asks : Atom → Prop) : (Emerge.init portage globals cache read).Lone (Emerge.init portage globals cache read) asks ∧
      (Emerge.init portage globals cache read).Complete :=
  ⟨⟨rfl, rfl, fun x hx => absurd hx (Nat.not_lt_zero x), fun key pkg h => absurd h (by simp [Emerge.init])⟩,
    fun x a ha => absurd ha (by simp [Emerge.init])⟩

/-- Whatever has been called before, and whether it raised: where the requests agree, a session
in which every `get_resolved` returns comes to a sound set of ebuilds. -/
theorem resolution_sound {loop : ForLoop} {portage : Portage} {globals : UseHeap} {cache : Nat → CacheFile}
    {read : List Nat} {asks : Atom → Prop} (ho : (Emerge.init portage globals cache read).Agreeing asks)
    (before calls : List SessionCall) (hcalls : ∀ call ∈ before ++ calls, call.Within asks) {t : Emerge}
    (h : run (SessionCall.next loop) (SessionCall.clear.step loop
      (before.foldl (SessionCall.step loop) (Emerge.init portage globals cache read))) calls = some t) : t.Sound := by
  obtain ⟨hinit, hinitc⟩ := lone_init portage globals cache read asks
  obtain ⟨hs, hc, -⟩ := SessionCall.foldl_completes ho
    (fun call hcall => hcalls call (List.mem_append_left _ hcall)) _ hinit hinitc
  obtain ⟨hclear, hclearc, -⟩ := session_completes [] _ hs hc
  obtain ⟨ht, hsettled⟩ := SessionCall.run_settled ho
    (fun call hcall => hcalls call (List.mem_append_right _ hcall)) hclear hclearc
    (fun x hx => absurd hx List.not_mem_nil) h
  exact sound_of_settled ho ht hsettled (SessionCall.run_rooted (rooted_empty rfl) h).explores.closed

theorem agreeing_mutual {useflags : List AtomFlag} (h : useflags ∈ [[], [pairFlag]]) :
    (mutualSession useflags).Agreeing (· ∈ mutualRequests useflags) where
  files _ _ _ hatom := mutual_asks hatom
  own atom hatom ebuild hebuild := by
    rw [mutualSession_portage] at hebuild
    obtain ⟨ebuild', h', hkey, -⟩ := mutual_found useflags h atom hatom atom hatom rfl
    obtain rfl := Option.some.inj (Except.ok.inj (Option.some.inj (h'.symm.trans hebuild)))
    exact hkey
  accepts a b ebuild ha hb hkey hebuild := by
    rw [mutualSession_portage] at hebuild
    obtain ⟨ebuild', h', -, hmatches⟩ := mutual_found useflags h a ha b hb hkey
    obtain rfl := Option.some.inj (Except.ok.inj (Option.some.inj (h'.symm.trans hebuild)))
    exact hmatches

/-- `app-misc/foo` is resolved first, and after that `app-misc/bar`, which asks for its flag. -/
theorem resolution_sound_mutual : ∃ t,
    run (SessionCall.next search) (SessionCall.clear.step search
      ([.selectAtom none (pairAtom "foo" []), .getResolved 3 0].foldl (SessionCall.step search)
        (mutualSession [pairFlag]))) [.selectAtom none (pairAtom "bar" []), .getResolved 3 1] = some t ∧
      t.resolveSession = [0, 1] ∧ t.Sound := by
  have hrun : (run (SessionCall.next search) (SessionCall.clear.step search
      ([.selectAtom none (pairAtom "foo" []), .getResolved 3 0].foldl (SessionCall.step search)
        (mutualSession [pairFlag]))) [.selectAtom none (pairAtom "bar" []), .getResolved 3 1]).map
          Emerge.resolveSession = some [0, 1] := by
    decide +kernel
  obtain ⟨t, ht, hsession⟩ := Option.map_eq_some_iff.mp hrun
  have hagree := agreeing_mutual (List.mem_cons_of_mem [] (List.mem_singleton_self [pairFlag]))
  refine ⟨t, ht, hsession, resolution_sound hagree [.selectAtom none (pairAtom "foo" []), .getResolved 3 0]
    [.selectAtom none (pairAtom "bar" []), .getResolved 3 1] ?_ ht⟩
  simp [SessionCall.Within, mutualRequests]

end AutoGentoo
