import AutoGentoo.ResolutionSound
import AutoGentoo.StateReturns

/-! Repositories of which every resolution returns: all requests are found and agree, require
no flags, and the files have nothing to raise an exception over. -/

namespace AutoGentoo

open StateExcept Emerge GuardedRun

/-- The use-conditionals of the list itself have children and name flags of the ebuild. -/
def DependTree.Handled (o : Emerge) (iuse : Dict (List Char) UseFlag) : DependTree → Prop
  | .null => True
  | .node useOperator useCondition atom children next =>
    (atom = none → useCondition = 0 ∨ (useOperator = .enable ∨ useOperator = .disable) ∧ children ≠ .null ∧
      ∃ flag, o.getUseFlag useCondition = some flag ∧ (Dict.get iuse flag.name).isSome = true) ∧
    DependTree.Handled o iuse next

namespace Emerge

/-- The requests are found and require no flags. The files are read without an error, their
REQUIRED_USE holds of the flags as IUSE has them, and their conditionals are handled. -/
structure Plain (o : Emerge) (asks : Atom → Prop) : Prop where
  found : ∀ atom, asks atom → ∃ ebuild, o.portage.matchAtom atom = some (.ok (some ebuild))
  useflags : ∀ atom, asks atom → atom.useflags = []
  loads : ∀ ebuild : Ebuild, (o.cache ebuild.addr).ok = true
  required : ∀ ebuild, (o.file ebuild).requiredUse ≠ .null →
    RequiredUseHook.runHook { useflags := [], iuse := (o.file ebuild).iuse } (o.file ebuild).requiredUse = .ok ()
  handled : ∀ ebuild i, ((o.file ebuild).depTypes i).Handled o (o.file ebuild).iuse

/-- No flag has been changed or is to be changed. -/
structure Idle (s o : Emerge) : Prop where
  globals : s.globals = o.globals
  flags : ∀ (x : Nat) (a : SelectedEbuild), s.selected[x]? = some a → a.useflags = [] ∧ a.flags = []

/-- An object is refreshed, and the file of its ebuild has been read. -/
structure AtWork (s o : Emerge) (asks : Atom → Prop) (sel : Nat) (ebuild : Ebuild) : Prop where
  lone : s.Lone o asks
  idle : s.Idle o
  read : ebuild.addr ∈ s.read
  object : ∃ a : SelectedEbuild, s.selected[sel]? = some a ∧ a.ebuild = ebuild

variable {o s t : Emerge} {asks : Atom → Prop} {loop : ForLoop} {sel : Nat} {ebuild : Ebuild}

theorem Idle.modifySel (h : s.Idle o) (x : Nat) {f : SelectedEbuild → SelectedEbuild}
    (hf : ∀ a, (f a).useflags = a.useflags ∧ (f a).flags = a.flags) : (modifySel x f s).2.Idle o := by
  refine ⟨h.globals, fun y b hb => ?_⟩
  by_cases hy : x = y
  · subst hy
    rw [modifySel_self] at hb
    obtain ⟨a, ha, rfl⟩ := Option.map_eq_some_iff.mp hb
    rw [(hf a).1, (hf a).2]
    exact h.flags x a ha
  · rw [modifySel_ne hy] at hb
    exact h.flags y b hb

theorem Idle.opens (h : s.Idle o) (parent : Option Nat) (atom : Atom) (ebuild : Ebuild) :
    (s.opensPackage parent atom ebuild).Idle o := by
  refine ⟨h.globals, fun x b hb => ?_⟩
  by_cases hx : x < s.selected.length
  · exact h.flags x b ((List.getElem?_append_left hx).symm.trans hb)
  · have hnew : [SelectedEbuild.init parent atom ebuild][x - s.selected.length]? = some b :=
      (List.getElem?_append_right (Nat.le_of_not_lt hx)).symm.trans hb
    rw [List.mem_singleton.mp (List.mem_of_getElem? hnew)]
    exact ⟨rfl, rfl⟩

theorem AtWork.modifySel (h : s.AtWork o asks sel ebuild) (x : Nat) {f : SelectedEbuild → SelectedEbuild}
    (hebuild : ∀ a, (f a).ebuild = a.ebuild)
    (hf : ∀ a, (f a).useflags = a.useflags ∧ (f a).flags = a.flags) :
    (modifySel x f s).2.AtWork o asks sel ebuild := by
  obtain ⟨hlone, hkeeps⟩ := modifySel_staysLone (o := o) x hebuild s h.lone
  obtain ⟨a, ha, he⟩ := h.object
  obtain ⟨b, hb, hab⟩ := hkeeps sel a ha
  exact ⟨hlone, h.idle.modifySel x hf, h.read, b, hb, hab.trans he⟩

theorem AtWork.useFlags (h : s.AtWork o asks sel ebuild) :
    useFlags sel s = (.ok { useflags := [], iuse := (o.file ebuild).iuse }, s) := by
  obtain ⟨a, ha, rfl⟩ := h.object
  refine bind_ok.mpr ⟨a, s, getSel_ok.mpr ⟨ha, rfl⟩, bind_ok.mpr ⟨s, s, get_ok.mpr ⟨rfl, rfl⟩, ?_⟩⟩
  rw [(h.idle.flags sel a ha).1, metadata, if_pos h.read, h.lone.cache]
  rfl

theorem hooks_setHooks (a : SelectedEbuild) (name : Option (List Char)) (hooks : List Hookable) :
    (a.setHooks name hooks).hooks name = hooks := by
  cases name with
  | none => rfl
  | some name => rw [SelectedEbuild.hooks, SelectedEbuild.setHooks, Dict.get_set_self, Option.getD_some]

theorem AtWork.setHooks (h : s.AtWork o asks sel ebuild) (x : Nat) (name : Option (List Char))
    (hooks : SelectedEbuild → List Hookable) :
    (AutoGentoo.modifySel x (fun a => a.setHooks name (hooks a)) s).2.AtWork o asks sel ebuild := by
  refine h.modifySel x (fun a => ?_) fun a => ?_
  · cases name <;> rfl
  · cases name <;> exact ⟨rfl, rfl⟩

theorem AtWork.runHookAt (h : s.AtWork o asks sel ebuild) {name : Option (List Char)} {arg : Option Bool} {i : Nat}
    {a : SelectedEbuild} {hook hook' : Hookable} (ha : s.selected[sel]? = some a)
    (hat : (a.hooks name)[i]? = some hook)
    (hok : hook.runHook { useflags := [], iuse := (o.file ebuild).iuse } arg = .ok hook') :
    ∃ t, runHookAt sel name arg i s = (.ok (), t) ∧ t.AtWork o asks sel ebuild := by
  refine ⟨(AutoGentoo.modifySel sel (fun b => b.setHooks name ((b.hooks name).set i hook')) s).2,
    bind_ok.mpr ⟨_, s, h.useFlags, bind_ok.mpr ⟨a, s, getSel_ok.mpr ⟨ha, rfl⟩, ?_⟩⟩, h.setHooks sel name _⟩
  rw [hat]
  exact bind_ok.mpr ⟨hook', s, raising_ok.mpr ⟨hok, rfl⟩, rfl⟩

theorem AtWork.hookArg (h : s.AtWork o asks sel ebuild) {useflag : Option UseFlag}
    (hflag : ∀ flag ∈ useflag, (Dict.get (o.file ebuild).iuse flag.name).isSome = true) :
    ∃ arg, hookArg sel (useflag.map UseFlag.name) s = (.ok arg, s) := by
  cases useflag with
  | none => exact ⟨none, rfl⟩
  | some flag =>
    obtain ⟨current, hcurrent⟩ := Option.isSome_iff_exists.mp (hflag flag rfl)
    refine ⟨some current.state, bind_ok.mpr ⟨_, s, h.useFlags, bind_ok.mpr ⟨current, s, ?_, rfl⟩⟩⟩
    rw [raising_ok, UseFlags.getUse, Dict.get_nil]
    simp only [hcurrent, and_self]

/-- A hook that does not raise on the flags as IUSE has them. -/
theorem AtWork.addUseHook (h : s.AtWork o asks sel ebuild) {useflag : Option UseFlag} {hook : Hookable}
    (hflag : ∀ flag ∈ useflag, (Dict.get (o.file ebuild).iuse flag.name).isSome = true)
    (hrun : ∀ arg, ∃ hook', hook.runHook { useflags := [], iuse := (o.file ebuild).iuse } arg = .ok hook') :
    ∃ t, addUseHook sel useflag hook s = (.ok (), t) ∧ t.AtWork o asks sel ebuild := by
  obtain ⟨a, ha, -⟩ := h.object
  let name := useflag.map UseFlag.name
  let added := (AutoGentoo.modifySel sel (fun b => b.setHooks name (b.hooks name ++ [hook])) s).2
  have hadded : added.AtWork o asks sel ebuild := h.setHooks sel name _
  have hobject : added.selected[sel]? = some (a.setHooks name (a.hooks name ++ [hook])) := by
    rw [modifySel_self, ha]
    rfl
  have hat : ((a.setHooks name (a.hooks name ++ [hook])).hooks name)[(a.hooks name).length]? = some hook := by
    rw [hooks_setHooks, List.getElem?_concat_length]
  obtain ⟨arg, harg⟩ := hadded.hookArg hflag
  obtain ⟨hook', hok⟩ := hrun arg
  obtain ⟨t, ht, hwork⟩ := hadded.runHookAt hobject hat hok
  exact ⟨t, bind_ok.mpr ⟨a, s, getSel_ok.mpr ⟨ha, rfl⟩, bind_ok.mpr ⟨(), added, rfl,
    bind_ok.mpr ⟨arg, added, harg, ht⟩⟩⟩, hwork⟩

theorem AtWork.hookRequiredUse (h : s.AtWork o asks sel ebuild) (hp : o.Plain asks) :
    ∃ t, hookRequiredUse sel (o.file ebuild).requiredUse s = (.ok (), t) ∧ t.AtWork o asks sel ebuild := by
  rw [AutoGentoo.hookRequiredUse]
  split_ifs with hnull
  · exact ⟨s, rfl, h⟩
  · refine h.addUseHook (fun flag hflag => absurd hflag (by simp)) fun arg =>
      ⟨.requiredUse (o.file ebuild).requiredUse, ?_⟩
    rw [Hookable.runHook, hp.required ebuild hnull]
    rfl

theorem AtWork.resolveCondition (h : s.AtWork o asks sel ebuild) {useOperator : UseOperator} {useCondition : Nat}
    {children : DependTree} (hcondition : useCondition = 0 ∨
      (useOperator = .enable ∨ useOperator = .disable) ∧ children ≠ .null ∧
        ∃ flag, o.getUseFlag useCondition = some flag ∧ (Dict.get (o.file ebuild).iuse flag.name).isSome = true) :
    ∃ t, resolveCondition sel useOperator useCondition children s = (.ok (), t) ∧
      t.AtWork o asks sel ebuild := by
  have hget : (get : Resolution Emerge) s = (.ok s, s) := get_ok.mpr ⟨rfl, rfl⟩
  rw [AutoGentoo.resolveCondition, bind_of_ok _ hget]
  by_cases hzero : useCondition = 0
  · rw [if_pos hzero]
    exact ⟨s, rfl, h⟩
  · obtain ⟨hoperator, hchildren, flag, hflag, hhas⟩ := hcondition.resolve_left hzero
    have hnot : ¬ (useOperator ≠ .enable ∧ useOperator ≠ .disable) := fun hne =>
      hoperator.elim hne.1 hne.2
    have hglobal : s.getUseFlag useCondition = some flag := by
      rw [getUseFlag, h.idle.globals]
      exact hflag
    rw [if_neg hzero, if_neg hnot, hglobal]
    simp only [if_neg hchildren]
    refine h.addUseHook ?_ fun arg => ?_
    · rintro _ ⟨rfl⟩
      exact hhas
    · rw [Hookable.runHook]
      simp only [Bool.false_eq_true, if_false]
      split_ifs
      · exact ⟨_, rfl⟩
      · exact ⟨_, rfl⟩

theorem AtWork.append (h : s.AtWork o asks sel ebuild) (i : Fin 4) (resolved : Option Generator) :
    ∃ t, yieldTo (appendGenerator sel i) resolved s = (.ok (), t) ∧ t.AtWork o asks sel ebuild := by
  cases resolved with
  | none => exact ⟨s, rfl, h⟩
  | some dep =>
    refine ⟨_, rfl, h.modifySel sel ?_ ?_⟩
    · exact fun _ => rfl
    · exact fun _ => ⟨rfl, rfl⟩

/-- The object for a request is found or made. -/
theorem AtWork.resolveAtom (h : s.AtWork o asks sel ebuild) (ho : o.Agreeing asks) (hp : o.Plain asks) {atom : Atom}
    (hatom : asks atom) : ∃ resolved t, resolveAtom (selectAtomOver loop) (some sel) atom s = (.ok resolved, t) ∧
      t.AtWork o asks sel ebuild := by
  obtain ⟨found, hfound⟩ := hp.found atom hatom
  obtain ⟨x, t, b, hselect, -, -, -, ht, hcases⟩ := h.lone.select ho hatom hfound loop (some sel)
  refine ⟨some { atom := atom, sel := x }, t, bind_ok.mpr ⟨some x, t, ofCall_ok.mpr hselect, ?_⟩, ?_⟩
  · rw [hp.useflags atom hatom]
    rfl
  · obtain ⟨a, ha, he⟩ := h.object
    rcases hcases with rfl | rfl
    · exact h
    · obtain ⟨c, hc, hac⟩ := created_keeps s _ _ _ _ _ sel a ha
      exact ⟨ht, h.idle.opens _ _ _, h.read, c, hc, hac.trans he⟩

theorem AtWork.resolveSingle (h : s.AtWork o asks sel ebuild) (ho : o.Agreeing asks) (hp : o.Plain asks)
    {useOperator : UseOperator} {useCondition : Nat} {atom : Option Atom} {children : DependTree}
    (hatom : ∀ a ∈ requestedAtom atom, asks a)
    (hcondition : atom = none → useCondition = 0 ∨
      (useOperator = .enable ∨ useOperator = .disable) ∧ children ≠ .null ∧
        ∃ flag, o.getUseFlag useCondition = some flag ∧ (Dict.get (o.file ebuild).iuse flag.name).isSome = true) :
    ∃ resolved t, resolveSingle (selectAtomOver loop) (some sel) useOperator useCondition atom children s =
      (.ok resolved, t) ∧ t.AtWork o asks sel ebuild := by
  cases atom with
  | none =>
    obtain ⟨t, ht, hwork⟩ := h.resolveCondition (hcondition rfl)
    exact ⟨none, t, bind_ok.mpr ⟨(), t, ht, rfl⟩, hwork⟩
  | some atom =>
    simp only [AutoGentoo.resolveSingle]
    split_ifs with hb
    · refine ⟨none, (addBlock atom s).2, rfl, h.lone.congr rfl rfl rfl rfl (.refl s), ?_, h.read, h.object⟩
      exact ⟨h.idle.globals, h.idle.flags⟩
    · refine h.resolveAtom ho hp (hatom atom ?_)
      rw [requestedAtom, if_pos (not_not.mp hb)]
      exact List.mem_singleton_self atom

theorem resolveAll_returns (ho : o.Agreeing asks) (hp : o.Plain asks) (i : Fin 4) {expression : DependTree}
    (hasks : ∀ a ∈ expression.topAtoms, asks a) (hhandled : expression.Handled o (o.file ebuild).iuse) :
    Returns (fun s => s.AtWork o asks sel ebuild)
      (resolveAll (selectAtomOver loop) (some sel) (appendGenerator sel i) expression)
      fun _ t => t.AtWork o asks sel ebuild := by
  induction expression with
  | null => exact returns_pure fun _ hs => hs
  | node useOperator useCondition atom children next _ ih =>
    have hsingle : Returns (fun s => s.AtWork o asks sel ebuild)
        (resolveSingle (selectAtomOver loop) (some sel) useOperator useCondition atom children)
        fun _ t => t.AtWork o asks sel ebuild := fun s hs =>
      hs.resolveSingle ho hp (fun a ha => hasks a (List.mem_append_left _ ha)) hhandled.1
    refine hsingle.bind fun resolved => Returns.bind (fun s hs => ?_) fun _ =>
      ih (fun a ha => hasks a (List.mem_append_right _ ha)) hhandled.2
    obtain ⟨t, ht, hwork⟩ := hs.append i resolved
    exact ⟨(), t, ht, hwork⟩

theorem loadMetadata_returns (hp : o.Plain asks) (hs : s.Lone o asks) (ebuild : Ebuild) :
    loadMetadata ebuild s = (.ok (), s.loaded ebuild) := by
  have hget : (get : Resolution Emerge) s = (.ok s, s) := get_ok.mpr ⟨rfl, rfl⟩
  rw [AutoGentoo.loadMetadata, bind_of_ok _ hget, loaded]
  split_ifs
  · rfl
  · rw [initializeMetadata, hs.cache, if_pos (hp.loads ebuild)]

theorem mem_read_loaded (s : Emerge) (ebuild : Ebuild) : ebuild.addr ∈ (s.loaded ebuild).read := by
  rw [loaded]
  split_ifs with hinit
  · rw [metadataInit, Bool.and_eq_true, decide_eq_true_eq] at hinit
    exact hinit.1
  · exact List.mem_cons_self

/-- Nothing waits in the queue. -/
theorem AtWork.flushUse (h : s.AtWork o asks sel ebuild) : flushUse sel s = (.ok (), s) := by
  obtain ⟨a, ha, -⟩ := h.object
  refine bind_ok.mpr ⟨a, s, getSel_ok.mpr ⟨ha, rfl⟩, ?_⟩
  rw [(h.idle.flags sel a ha).2]
  rfl

theorem gather_returns (loop : ForLoop) (ho : o.Agreeing asks) (hp : o.Plain asks) (hs : s.Lone o asks) (hidle : s.Idle o)
    {a : SelectedEbuild} (ha : s.selected[sel]? = some a) :
    ∃ t, gather (selectAtomOver loop) sel s = (.ok (), t) ∧ t.AtWork o asks sel a.ebuild := by
  let cleared := (modifySel sel (fun a => { a with generators := .empty }) s).2
  have hstays : Respects (StaysLone o asks) (modifySel sel fun a => { a with generators := .empty }) := by
    refine modifySel_staysLone sel ?_
    exact fun _ => rfl
  have hcleared : cleared.Lone o asks := (hstays s hs).1
  have hclearedIdle : cleared.Idle o := by
    refine hidle.modifySel sel ?_
    exact fun _ => ⟨rfl, rfl⟩
  have hobject : cleared.selected[sel]? = some { a with generators := .empty } := by
    rw [modifySel_self, ha]
    rfl
  have hload := loadMetadata_returns hp hcleared a.ebuild
  have hwork : (cleared.loaded a.ebuild).AtWork o asks sel a.ebuild := by
    have hfields : (cleared.loaded a.ebuild).globals = cleared.globals ∧
        (cleared.loaded a.ebuild).selected = cleared.selected := by
      rw [loaded]
      split_ifs <;> exact ⟨rfl, rfl⟩
    refine ⟨((loadMetadata_works a.ebuild).ok hload hcleared).1, ⟨hfields.1.trans hclearedIdle.globals, ?_⟩,
      mem_read_loaded _ _, { a with generators := .empty }, ?_, rfl⟩
    · rw [hfields.2]
      exact hclearedIdle.flags
    · rw [hfields.2, hobject]
  have hmetadata : (cleared.loaded a.ebuild).metadata a.ebuild = o.file a.ebuild := by
    rw [metadata_loaded, file, hcleared.cache]
    rfl
  obtain ⟨u, hhook, hu⟩ := hwork.hookRequiredUse hp
  have hloop : Returns (fun s => s.AtWork o asks sel a.ebuild)
      (DependencyContainer.indices.forM fun i => resolveAll (selectAtomOver loop) (some sel)
        (appendGenerator sel i) ((o.file a.ebuild).depTypes i)) fun _ t => t.AtWork o asks sel a.ebuild :=
    returns_forM fun i _ => resolveAll_returns ho hp i (fun atom hatom => ho.files _ i atom hatom)
      (hp.handled a.ebuild i)
  obtain ⟨⟨⟩, t, hall, ht⟩ := hloop u hu
  refine ⟨t, bind_ok.mpr ⟨(), cleared, rfl, bind_ok.mpr ⟨_, cleared, getSel_ok.mpr ⟨hobject, rfl⟩,
    bind_ok.mpr ⟨(), _, hload, bind_ok.mpr ⟨(), _, hwork.flushUse, bind_ok.mpr ⟨_, _, get_ok.mpr ⟨rfl, rfl⟩,
      bind_ok.mpr ⟨(), u, ?_, ?_⟩⟩⟩⟩⟩⟩, ht⟩
  · rw [hmetadata]
    exact hhook
  · rw [hmetadata]
    exact hall

/-- Between the calls: one object for each package, what is clean is complete, no flag waits. -/
structure Rests (s o : Emerge) (asks : Atom → Prop) : Prop where
  lone : s.Lone o asks
  complete : s.Complete
  idle : s.Idle o

def Live (s : Emerge) (x : Nat) : Prop := ∃ a : SelectedEbuild, s.selected[x]? = some a

theorem Live.keeps {x : Nat} (h : s.Live x) (hkeeps : s.KeepsEbuilds t) : t.Live x := by
  obtain ⟨a, ha⟩ := h
  obtain ⟨b, hb, -⟩ := hkeeps x a ha
  exact ⟨b, hb⟩

theorem refreshIfDirty_returns (loop : ForLoop) (ho : o.Agreeing asks) (hp : o.Plain asks) (hs : s.Rests o asks) (hlive : s.Live sel) :
    ∃ t, refreshIfDirty (selectAtomOver loop) sel s = (.ok (), t) ∧ t.Rests o asks ∧ s.KeepsEbuilds t := by
  obtain ⟨a, ha⟩ := hlive
  have hidle : ∃ t, refreshIfDirty (selectAtomOver loop) sel s = (.ok (), t) ∧ t.Idle o := by
    by_cases hdirty : a.isDirty = true
    · obtain ⟨u, hgather, hu⟩ := gather_returns loop ho hp hs.lone hs.idle ha
      refine ⟨(modifySel sel (fun a => { a with isDirty := false }) u).2,
        bind_ok.mpr ⟨a, s, getSel_ok.mpr ⟨ha, rfl⟩, ?_⟩, ?_⟩
      · rw [if_pos hdirty, refresh_gather]
        exact bind_ok.mpr ⟨(), u, hgather, rfl⟩
      · refine hu.idle.modifySel sel ?_
        exact fun _ => ⟨rfl, rfl⟩
    · refine ⟨s, bind_ok.mpr ⟨a, s, getSel_ok.mpr ⟨ha, rfl⟩, ?_⟩, hs.idle⟩
      rw [if_neg hdirty]
      rfl
  obtain ⟨t, ht, hidle⟩ := hidle
  obtain ⟨hlone, hcomplete, hkeeps⟩ := (refreshIfDirty_completes ho sel).ok ht hs.lone hs.complete
  exact ⟨t, ht, ⟨hlone, hcomplete, hidle⟩, hkeeps⟩

theorem Rests.resolvedDeps (hs : s.Rests o asks) (sel : Nat) (f : SelectedEbuild → DependencyContainer Generator) :
    (modifySel sel (fun a => { a with resolvedDeps := f a }) s).2.Rests o asks := by
  obtain ⟨hlone, hcomplete, -⟩ := resolvedDeps_completes sel f s hs.lone hs.complete
  refine ⟨hlone, hcomplete, hs.idle.modifySel sel ?_⟩
  exact fun _ => ⟨rfl, rfl⟩

theorem resolvedDeps_keeps (sel : Nat) (f : SelectedEbuild → DependencyContainer Generator) (s : Emerge) :
    s.KeepsEbuilds (modifySel sel (fun a => { a with resolvedDeps := f a }) s).2 := by
  refine modifySel_keeps sel ?_ s
  exact fun _ => rfl

theorem Agreeing.ownMatches (ho : o.Agreeing asks) : o.OwnMatches := fun addr i atom hatom =>
  ho.own atom (ho.files addr i atom hatom)

theorem getResolved_returns (loop : ForLoop) (ho : o.Agreeing asks) {fuel : Nat} (hregenerate : ∀ sel s, s.Rests o asks → s.Live sel →
      s.room + 2 ≤ fuel → ∃ t, regenerate (selectAtomOver loop) fuel sel s = (.ok (), t) ∧ t.Rests o asks)
    (hs : s.Rests o asks) (hlive : s.Live sel) (hroom : s.room + 1 ≤ fuel) :
    ∃ t, getResolved (regenerate (selectAtomOver loop) fuel) sel s = (.ok (), t) ∧ t.Rests o asks ∧
      s.KeepsEbuilds t ∧ t.room ≤ s.room := by
  have hreturns : ∃ t, getResolved (regenerate (selectAtomOver loop) fuel) sel s = (.ok (), t) ∧
      t.Rests o asks := by
    by_cases hmem : sel ∈ s.resolveSession
    · rw [getResolved_of_mem _ hmem]
      exact ⟨s, rfl, hs⟩
    · rw [getResolved_of_notMem _ hmem]
      obtain ⟨a, ha⟩ := hlive
      obtain ⟨-, hdrop⟩ := room_session hmem
      obtain ⟨hlone, hcomplete, -⟩ := session_completes (sel :: s.resolveSession) s hs.lone hs.complete
      refine hregenerate sel _ ⟨hlone, hcomplete, hs.idle.globals, hs.idle.flags⟩ ⟨a, ha⟩ ?_
      have hless := hdrop (List.getElem?_eq_some_iff.mp ha).1
      omega
  obtain ⟨t, ht, hrests⟩ := hreturns
  have hframe := shrinks_frame ho.ownMatches loop
  obtain ⟨-, -, hle⟩ := (hframe.getResolved (fun z hz => hframe.regenerate fuel hz) sel).ok ht hs.lone.portage
    hs.lone.cache
  obtain ⟨-, -, hkeeps⟩ := (getResolved_completes (regenerate_completes ho fuel) sel).ok ht hs.lone hs.complete
  exact ⟨t, ht, hrests, hkeeps, hle⟩

/-- With fuel for the objects there may still be, `regenerate` returns. -/
theorem regenerate_returns (ho : o.Agreeing asks) (hp : o.Plain asks) (fuel sel : Nat) (s : Emerge)
    (hs : s.Rests o asks) (hlive : s.Live sel) (hroom : s.room + 2 ≤ fuel) :
    ∃ t, regenerate (selectAtomOver loop) fuel sel s = (.ok (), t) ∧ t.Rests o asks := by
  induction fuel generalizing sel s with
  | zero => omega
  | succ fuel ih =>
    obtain ⟨v, hrefresh, hv, hsv⟩ := refreshIfDirty_returns loop ho hp hs hlive
    obtain ⟨-, -, hvroom⟩ := ((shrinks_frame ho.ownMatches loop).refreshIfDirty trivial).ok hrefresh
      hs.lone.portage hs.lone.cache
    let w := (modifySel sel (fun a => { a with resolvedDeps := .empty }) v).2
    have hw : w.Rests o asks := hv.resolvedDeps sel _
    have hvw : v.KeepsEbuilds w := resolvedDeps_keeps sel _ v
    have hwroom : w.room ≤ s.room := (modifySel_shrinks o sel _ v hv.lone.portage hv.lone.cache).2.2.trans hvroom
    obtain ⟨a, ha⟩ := (hlive.keeps hsv).keeps hvw
    have hclean : a.isDirty = false := by
      obtain ⟨b, hb⟩ := hlive.keeps hsv
      have hab : w.selected[sel]? = some { b with resolvedDeps := .empty } := by
        rw [modifySel_self, hb]
        rfl
      have hbclean := refreshIfDirty_clean hrefresh hb
      rw [ha] at hab
      rw [Option.some.inj hab]
      exact hbclean
    have hanswers : ∀ p ∈ a.generators.entries, w.Live p.2.sel := by
      intro p hp
      obtain ⟨b, hb, -⟩ := (hw.complete sel a ha hclean).answers hp
      exact ⟨b, hb⟩
    -- the generators stay there, and the room does not grow
    let Inv (r : Emerge) : Prop := r.Rests o asks ∧ (∀ p ∈ a.generators.entries, r.Live p.2.sel) ∧ r.room ≤ s.room
    have hloop : Returns Inv
        (a.generators.entries.forM (resolveGenerator (regenerate (selectAtomOver loop) fuel) sel)) fun _ => Inv := by
      refine returns_forM fun p hp r hr => ?_
      obtain ⟨hrests, hgenerators, hle⟩ := hr
      obtain ⟨u, hresolved, hu, hru, huroom⟩ := getResolved_returns loop ho ih hrests (hgenerators p hp) (by omega)
      let t := (modifySel sel (fun a => { a with resolvedDeps := a.resolvedDeps.append p.1 p.2 }) u).2
      have hut : u.KeepsEbuilds t := resolvedDeps_keeps sel _ u
      have htroom := (modifySel_shrinks o sel (fun a => { a with resolvedDeps := a.resolvedDeps.append p.1 p.2 }) u
        hu.lone.portage hu.lone.cache).2.2
      exact ⟨(), t, bind_ok.mpr ⟨(), u, hresolved, rfl⟩, hu.resolvedDeps sel _,
        fun q hq => ((hgenerators q hq).keeps hru).keeps hut, htroom.trans (huroom.trans hle)⟩
    obtain ⟨⟨⟩, t, ht, hinv⟩ := hloop w ⟨hw, hanswers, hwroom⟩
    exact ⟨t, bind_ok.mpr ⟨(), v, hrefresh, bind_ok.mpr ⟨(), w, rfl,
      bind_ok.mpr ⟨a, w, getSel_ok.mpr ⟨ha, rfl⟩, ht⟩⟩⟩, hinv.1⟩

end Emerge

namespace SessionCall

variable {o s t : Emerge} {asks : Atom → Prop} {loop : ForLoop}

/-- It selects for one of these atoms or resolves an object that is there, with fuel for the
objects there may be; flags are left alone. -/
def Served (asks : Atom → Prop) (s : Emerge) : SessionCall → Prop
  | clear | addBlock _ => True
  | selectAtom _ atom => asks atom
  | getResolved fuel sel => sel < s.selected.length ∧ s.room + 2 ≤ fuel
  | changeWithinSlot _ _ | scheduleUse _ _ | addUseRequirement _ _ _ => False

instance Served.decidable [DecidablePred asks] : (call : SessionCall) → Decidable (call.Served asks s)
  | clear | addBlock _ => isTrue trivial
  | selectAtom _ atom => inferInstanceAs (Decidable (asks atom))
  | getResolved fuel sel => inferInstanceAs (Decidable (sel < s.selected.length ∧ s.room + 2 ≤ fuel))
  | changeWithinSlot _ _ | scheduleUse _ _ | addUseRequirement _ _ _ => isFalse id

theorem Served.within {call : SessionCall} (h : call.Served asks s) : call.Within asks := by
  cases call with
  | clear | addBlock | getResolved => trivial
  | selectAtom parent atom => exact h
  | changeWithinSlot | scheduleUse | addUseRequirement => exact absurd h id

theorem next_returns (loop : ForLoop) (ho : o.Agreeing asks) (hp : o.Plain asks) {call : SessionCall} (hs : s.Rests o asks)
    (hserved : call.Served asks s) : ∃ t, call.next loop s = some t ∧ t.Rests o asks := by
  obtain ⟨hlone, hcomplete, -⟩ : _ ∧ _ ∧ s.KeepsEbuilds (call.step loop s) :=
    step_completes ho hserved.within s hs.lone hs.complete
  cases call with
  | clear => exact ⟨_, rfl, hlone, hcomplete, hs.idle.globals, hs.idle.flags⟩
  | addBlock atom => exact ⟨_, rfl, hlone, hcomplete, hs.idle.globals, hs.idle.flags⟩
  | selectAtom parent atom =>
    refine ⟨_, rfl, hlone, hcomplete, ?_⟩
    obtain ⟨ebuild, hfound⟩ := hp.found atom hserved
    obtain ⟨x, t, b, hselect, -, -, -, -, hcases⟩ := hs.lone.select ho hserved hfound loop parent
    rw [ofCall_ok.mpr hselect]
    rcases hcases with rfl | rfl
    · exact hs.idle
    · exact hs.idle.opens parent atom ebuild
  | getResolved fuel sel =>
    obtain ⟨hlt, hroom⟩ := hserved
    obtain ⟨t, ht, hrests, -⟩ := getResolved_returns loop ho (regenerate_returns ho hp fuel) hs
      ⟨_, List.getElem?_eq_getElem hlt⟩ (by omega)
    exact ⟨t, EmergeCall.returned_some.mpr ht, hrests⟩
  | changeWithinSlot | scheduleUse | addUseRequirement => exact absurd hserved id

theorem run_returns (ho : o.Agreeing asks) (hp : o.Plain asks) {calls : List SessionCall} (hs : s.Rests o asks)
    (hserved : AllOk (next loop) (fun s call => call.Served asks s) s calls) :
    (∃ t, run (next loop) s calls = some t ∧ t.Rests o asks) ∧ ∀ call ∈ calls, call.Within asks := by
  induction calls generalizing s with
  | nil => exact ⟨⟨s, rfl, hs⟩, fun call hcall => absurd hcall List.not_mem_nil⟩
  | cons call calls ih =>
    obtain ⟨u, hu, hrests⟩ := next_returns loop ho hp hs hserved.1
    obtain ⟨⟨t, ht, htrests⟩, hwithin⟩ := ih hrests (hserved.2 u hu)
    refine ⟨⟨t, by rw [run, hu, Option.bind_some, ht], htrests⟩, fun call' hcall => ?_⟩
    rcases List.mem_cons.mp hcall with rfl | hcall
    · exact hserved.1.within
    · exact hwithin call' hcall

end SessionCall

/-- Where the requests agree and nothing in the files raises, each `get_resolved` of a run
returns, and the session is sound. -/
theorem resolution_succeeds {loop : ForLoop} {portage : Portage} {globals : UseHeap} {cache : Nat → CacheFile}
    {read : List Nat} {asks : Atom → Prop} (ho : (Emerge.init portage globals cache read).Agreeing asks)
    (hp : (Emerge.init portage globals cache read).Plain asks) {calls : List SessionCall}
    (hserved : AllOk (SessionCall.next loop) (fun s call => call.Served asks s)
      (Emerge.init portage globals cache read) calls) :
    ∃ t, run (SessionCall.next loop) (Emerge.init portage globals cache read) calls = some t ∧ t.Sound := by
  obtain ⟨hlone, hcomplete⟩ := lone_init portage globals cache read asks
  have hidle : (Emerge.init portage globals cache read).Idle (Emerge.init portage globals cache read) :=
    ⟨rfl, fun x a ha => absurd ha (by simp [Emerge.init])⟩
  obtain ⟨⟨t, ht, -⟩, hwithin⟩ := SessionCall.run_returns ho hp ⟨hlone, hcomplete, hidle⟩ hserved
  obtain ⟨htlone, hsettled⟩ := SessionCall.run_settled ho hwithin hlone hcomplete
    (fun x hx => absurd hx List.not_mem_nil) ht
  exact ⟨t, ht, sound_of_settled ho htlone hsettled (SessionCall.run_rooted (rooted_empty rfl) ht).explores.closed⟩

theorem plain_mutual : (mutualSession []).Plain (· ∈ mutualRequests []) := by
  have hrequired : RequiredUseHook.runHook { useflags := [], iuse := requiredFile.iuse } requiredFile.requiredUse =
      .ok () := by
    have hok : (RequiredUseHook.runHook { useflags := [], iuse := requiredFile.iuse }
        requiredFile.requiredUse).isOk = true := by
      decide +kernel
    cases h : RequiredUseHook.runHook { useflags := [], iuse := requiredFile.iuse } requiredFile.requiredUse with
    | ok r => rfl
    | error e => exact absurd hok (by simp [h, Except.isOk, Except.toBool])
  have hname : ((mutualSession []).getUseFlag pairUse.2).map UseFlag.name = some ['f'] := by decide +kernel
  obtain ⟨flag, hflag, hname⟩ := Option.map_eq_some_iff.mp hname
  have hone (iuse : Dict (List Char) UseFlag) (atom : Atom) : (DependTree.ofAtom atom).Handled (mutualSession []) iuse :=
    ⟨fun h => absurd h (by simp), trivial⟩
  have hfile (ebuild : Ebuild) : (mutualSession []).file ebuild = if ebuild.addr = 1 then mutualBar [] else mutualFoo := rfl
  refine ⟨fun atom hatom => ?_, by decide +kernel, fun ebuild => rfl, fun ebuild _ => ?_, fun ebuild i => ?_⟩
  · rw [mutualSession_portage]
    obtain ⟨ebuild, h, -⟩ := mutual_found [] List.mem_cons_self atom hatom atom hatom rfl
    exact ⟨ebuild, h⟩
  · rw [hfile]
    split_ifs <;> exact hrequired
  · rw [hfile]
    split_ifs
    · fin_cases i
      · trivial
      · exact hone _ _
      · trivial
      · exact ⟨fun _ => .inr ⟨.inl rfl, by simp [DependTree.ofAtom], flag, hflag, by rw [hname]; rfl⟩, trivial⟩
    · fin_cases i
      · trivial
      · trivial
      · exact hone _ _
      · trivial

/-- Both packages are asked for, and the session is cleared in between. -/
theorem resolution_succeeds_mutual : ∃ t,
    run (SessionCall.next search) (mutualSession [])
      [.selectAtom none (pairAtom "bar" []), .getResolved 5 0, .clear, .selectAtom none (pairAtom "foo" []),
        .getResolved 5 1] = some t ∧ t.Sound :=
  resolution_succeeds (agreeing_mutual List.mem_cons_self) plain_mutual (by decide +kernel)

end AutoGentoo
