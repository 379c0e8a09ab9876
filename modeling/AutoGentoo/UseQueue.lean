import AutoGentoo.UseDependencies

/-! The queue of a selected ebuild: hooks do not look at it, and an entry for the state its flag
has makes no difference to `regenerate`. -/

namespace AutoGentoo

open StateExcept Emerge

theorem useFlags_of_get {sel : Nat} {s : Emerge} {selected : SelectedEbuild}
    (hs : s.selected[sel]? = some selected) :
    useFlags sel s =
      (.ok { useflags := selected.useflags, iuse := (s.metadata selected.ebuild).iuse }, s) :=
  bind_of_ok _ (getSel_ok.mpr ⟨hs, rfl⟩)

def SelectedEbuild.withQueue (self : SelectedEbuild) (queue : List UseFlag) : SelectedEbuild :=
  { self with flags := queue }

def Emerge.withQueue (self : Emerge) (sel : Nat) (queue : List UseFlag) : Emerge :=
  self.atSel sel fun selected => selected.withQueue queue

theorem withQueue_get {s : Emerge} {sel : Nat} {selected : SelectedEbuild}
    (hs : s.selected[sel]? = some selected) (queue : List UseFlag) :
    (s.withQueue sel queue).selected[sel]? = some (selected.withQueue queue) := by
  rw [withQueue, atSel_self, hs]
  rfl

/-- A call that does the same whatever waits in the queue, which it leaves alone. -/
def Blind (sel : Nat) {α : Type} (c : Resolution α) : Prop :=
  ∀ queue s, c (s.withQueue sel queue) = ((c s).1, (c s).2.withQueue sel queue)

section Blind

variable {sel : Nat} {α β : Type}

theorem blind_pure (a : α) : Blind sel (pure a : Resolution α) := fun _ _ => rfl

theorem blind_raising (r : Except PyError α) : Blind sel (raising r) := by
  intro queue s
  cases r <;> rfl

theorem Blind.bind {c : Resolution α} {f : α → Resolution β} (hc : Blind sel c)
    (hf : ∀ a, Blind sel (f a)) : Blind sel (c >>= f) := by
  intro queue s
  have hcall := hc queue s
  rcases bind_run c f s with ⟨a, t, ha, hb⟩ | ⟨e, t, he, hb⟩
  · rw [ha] at hcall
    rw [hb, bind_of_ok f hcall]
    exact hf a queue t
  · rw [he] at hcall
    rw [hb, bind_of_error f hcall]

theorem blind_forM {f : α → Resolution Unit} {l : List α} (h : ∀ a, Blind sel (f a)) :
    Blind sel (l.forM f) := by
  induction l with
  | nil => exact blind_pure _
  | cons a l ih => exact (h a).bind fun _ => ih

theorem blind_modifySel {f : SelectedEbuild → SelectedEbuild}
    (hf : ∀ selected queue, f (selected.withQueue queue) = (f selected).withQueue queue) :
    Blind sel (modifySel sel f) := by
  intro queue s
  show ((.ok (), (s.withQueue sel queue).atSel sel f) : Except Stop Unit × Emerge) =
    (.ok (), (s.atSel sel f).withQueue sel queue)
  rw [withQueue, withQueue, atSel_atSel, atSel_atSel]
  congr 2
  funext selected
  exact hf selected queue

theorem blind_getSel_bind {f : SelectedEbuild → Resolution β}
    (hqueue : ∀ selected queue, f (selected.withQueue queue) = f selected)
    (hf : ∀ selected, Blind sel (f selected)) : Blind sel (getSel sel >>= f) := by
  intro queue s
  cases hs : s.selected[sel]? with
  | none =>
    have hnone : getSel sel s = (.error (.raised .systemError), s) := by
      rw [getSel, hs]
    have hnone' : getSel sel (s.withQueue sel queue) =
        (.error (.raised .systemError), s.withQueue sel queue) := by
      rw [getSel, withQueue, atSel_self, hs]
      rfl
    rw [bind_of_error f hnone, bind_of_error f hnone']
  | some selected =>
    have hget := withQueue_get hs queue
    rw [bind_of_ok f (getSel_ok.mpr ⟨hs, rfl⟩), bind_of_ok f (getSel_ok.mpr ⟨hget, rfl⟩), hqueue]
    exact hf selected queue s

theorem blind_useFlags : Blind sel (useFlags sel) := by
  apply blind_getSel_bind
  · exact fun _ _ => rfl
  · exact fun _ _ _ => rfl

theorem hooks_withQueue (selected : SelectedEbuild) (queue : List UseFlag) (name : Option (List Char)) :
    (selected.withQueue queue).hooks name = selected.hooks name := by
  cases name <;> rfl

theorem setHooks_withQueue (selected : SelectedEbuild) (queue : List UseFlag) (name : Option (List Char))
    (hooks : List Hookable) :
    (selected.withQueue queue).setHooks name hooks = (selected.setHooks name hooks).withQueue queue := by
  cases name <;> rfl

theorem blind_runHookAt (name : Option (List Char)) (arg : Option Bool) (i : Nat) :
    Blind sel (runHookAt sel name arg i) := by
  refine blind_useFlags.bind fun flags => blind_getSel_bind ?_ fun selected => ?_
  · intro selected queue
    simp only [hooks_withQueue]
  · cases (selected.hooks name)[i]? with
    | none => exact blind_pure _
    | some hook =>
      refine (blind_raising _).bind fun hook' => blind_modifySel ?_
      intro selected queue
      rw [hooks_withQueue, setHooks_withQueue]

theorem blind_runHooks (name : Option (List Char)) (arg : Option Bool) :
    Blind sel (runHooks sel name arg) := by
  refine blind_getSel_bind ?_ fun selected => blind_forM (blind_runHookAt name arg)
  intro selected queue
  rw [hooks_withQueue]

theorem blind_loadMetadata (ebuild : Ebuild) : Blind sel (loadMetadata ebuild) := by
  intro queue s
  have hrun : ∀ s, loadMetadata ebuild s =
      if s.metadataInit ebuild then (.ok (), s) else initializeMetadata ebuild s := by
    intro s
    rw [loadMetadata]
    show (if s.metadataInit ebuild then pure () else initializeMetadata ebuild : Resolution Unit) s = _
    split_ifs <;> rfl
  have hinit : (s.withQueue sel queue).metadataInit ebuild = s.metadataInit ebuild := rfl
  rw [hrun, hrun, hinit]
  split_ifs <;> rfl

end Blind

/-- A turn of `flush_use` behind the `get`. -/
def flushTurn (sel : Nat) (useflag : UseFlag) : Resolution Unit := do
  let flags ← useFlags sel
  let current ← raising (flags.getUse (some useflag.name))
  if current.state = useflag.state then pure ()
  else
    modifySel sel fun s => { s with useflags := Dict.set s.useflags useflag.name useflag }
    runHooks sel (some useflag.name) (some useflag.state)
    runHooks sel none none

section Flush

variable {sel : Nat} {s t : Emerge}

theorem blind_flushTurn (useflag : UseFlag) : Blind sel (flushTurn sel useflag) := by
  refine blind_useFlags.bind fun flags => (blind_raising _).bind fun current => ?_
  split_ifs
  · exact blind_pure _
  · refine Blind.bind ?_ fun _ => (blind_runHooks _ _).bind fun _ => blind_runHooks _ _
    exact blind_modifySel fun _ _ => rfl

theorem flushOne_withQueue (s : Emerge) (useflag head : UseFlag) (queue : List UseFlag) :
    flushOne sel useflag (s.withQueue sel (head :: queue)) =
      ((flushTurn sel useflag s).1, (flushTurn sel useflag s).2.withQueue sel queue) := by
  have hpop : modifySel sel (fun x => { x with flags := x.flags.tail }) (s.withQueue sel (head :: queue)) =
      (.ok (), s.withQueue sel queue) := by
    show (Except.ok (), Emerge.atSel (Emerge.atSel s sel _) sel _) = _
    rw [atSel_atSel]
    rfl
  exact (bind_of_ok _ hpop).trans (blind_flushTurn useflag queue s)

theorem flushAll_withQueue (front back : List UseFlag) (s : Emerge) :
    ∀ r t, front.forM (flushTurn sel) s = (r, t) → ∃ queue, (r = .ok () → queue = back) ∧
      front.forM (flushOne sel) (s.withQueue sel (front ++ back)) = (r, t.withQueue sel queue) := by
  induction front generalizing s with
  | nil =>
    intro r t h
    obtain ⟨rfl, rfl⟩ := Prod.mk.inj h
    exact ⟨back, fun _ => rfl, rfl⟩
  | cons useflag front ih =>
    intro r t h
    have hone : flushOne sel useflag (s.withQueue sel (useflag :: front ++ back)) = _ :=
      flushOne_withQueue s useflag useflag (front ++ back)
    have hloop : (useflag :: front).forM (flushTurn sel) s =
      (flushTurn sel useflag >>= fun _ => front.forM (flushTurn sel)) s := rfl
    rw [hloop] at h
    rcases bind_run (flushTurn sel useflag) (fun _ => front.forM (flushTurn sel)) s with
      ⟨a, u, ha, hb⟩ | ⟨e, u, he, hb⟩
    · rw [ha] at hone
      obtain ⟨queue, hqueue, hrest⟩ := ih u r t (hb.symm.trans h)
      exact ⟨queue, hqueue, (bind_of_ok _ hone).trans hrest⟩
    · rw [he] at hone
      obtain ⟨rfl, rfl⟩ := Prod.mk.inj (hb.symm.trans h)
      exact ⟨front ++ back, fun hr => absurd hr (by simp), bind_of_error _ hone⟩

/-- Entries for states the flags have are taken out, and nothing else happens. -/
theorem flushTurn_current {useflag : UseFlag} (h : s.useState sel useflag.name = some useflag.state) :
    flushTurn sel useflag s = (.ok (), s) := by
  obtain ⟨flags, hat, hstate⟩ := Option.bind_eq_some_iff.mp h
  obtain ⟨selected, hs, rfl⟩ := Option.map_eq_some_iff.mp hat
  obtain ⟨current, hget, hcurrent⟩ := UseFlags.getUse_of_stateOf hstate
  apply (bind_of_ok _ (useFlags_of_get hs)).trans
  apply (bind_of_ok _ (raising_ok.mpr ⟨hget, rfl⟩)).trans
  rw [if_pos hcurrent]
  rfl

theorem flushTurns_current {queue : List UseFlag}
    (h : ∀ u ∈ queue, s.useState sel u.name = some u.state) :
    queue.forM (flushTurn sel) s = (.ok (), s) := by
  induction queue with
  | nil => rfl
  | cons useflag queue ih =>
    obtain ⟨hone, hrest⟩ := List.forall_mem_cons.mp h
    exact (bind_of_ok _ (flushTurn_current hone)).trans (ih hrest)

theorem withQueue_self {selected : SelectedEbuild} {queue : List UseFlag}
    (hs : s.selected[sel]? = some selected) (hqueue : selected.flags = queue) :
    s.withQueue sel queue = s := by
  subst hqueue
  have hsame : s.withQueue sel selected.flags = s.atSel sel id := atSel_congr hs rfl
  rw [hsame, atSel_id]

theorem withQueue_useState (s : Emerge) (queue : List UseFlag) (name : List Char) :
    (s.withQueue sel queue).useState sel name = s.useState sel name := by
  rw [useState, useState, useAt, useAt, withQueue, atSel_self]
  cases s.selected[sel]? <;> rfl

/-- The two ends are the same, or differ by the queue at an error. -/
def Agree (sel : Nat) (r r' : Except Stop Unit × Emerge) : Prop :=
  r = r' ∨ ∃ (e : Stop) (t : Emerge) (queue queue' : List UseFlag),
    r = (.error e, t.withQueue sel queue) ∧ r' = (.error e, t.withQueue sel queue')

theorem Agree.fst {r r' : Except Stop Unit × Emerge} (h : Agree sel r r') : r.1 = r'.1 := by
  rcases h with rfl | ⟨e, t, queue, queue', rfl, rfl⟩ <;> rfl

theorem Agree.useState {r r' : Except Stop Unit × Emerge} (h : Agree sel r r') (name : List Char) :
    r.2.useState sel name = r'.2.useState sel name := by
  rcases h with rfl | ⟨e, t, queue, queue', rfl, rfl⟩
  · rfl
  · rw [withQueue_useState, withQueue_useState]

theorem Agree.bind {c : Resolution Unit} (f : Unit → Resolution Unit) (h : Agree sel (c s) (c t)) :
    Agree sel ((c >>= f) s) ((c >>= f) t) := by
  have hs : (c >>= f) s = ExceptT.bindCont f (c s).1 (c s).2 := rfl
  have ht : (c >>= f) t = ExceptT.bindCont f (c t).1 (c t).2 := rfl
  rcases h with h | ⟨e, r, queue, queue', h, h'⟩
  · rw [hs, ht, h]
    exact .inl rfl
  · rw [bind_of_error f h, bind_of_error f h']
    exact .inr ⟨e, r, queue, queue', rfl, rfl⟩

theorem Blind.agree_bind {c : Resolution Unit} {f : Unit → Resolution Unit} (hc : Blind sel c)
    {queue queue' : List UseFlag} (h : ∀ t, c s = (.ok (), t) →
      Agree sel (f () (t.withQueue sel queue)) (f () (t.withQueue sel queue'))) :
    Agree sel ((c >>= f) (s.withQueue sel queue)) ((c >>= f) (s.withQueue sel queue')) := by
  have hq := hc queue s
  have hq' := hc queue' s
  rcases hcs : c s with ⟨r, t⟩
  rw [hcs] at hq hq'
  cases r with
  | ok a =>
    rw [bind_of_ok f hq, bind_of_ok f hq']
    exact h t hcs
  | error e =>
    rw [bind_of_error f hq, bind_of_error f hq']
    exact .inr ⟨e, t, queue, queue', rfl, rfl⟩

/-- Every entry is for the state its flag has, and a hook holds it fast. -/
structure Met (sel : Nat) (queue : List UseFlag) (s : Emerge) : Prop where
  locks : ∀ u ∈ queue, some u.state ∈ s.locks sel (some u.name)
  states : ∀ u ∈ queue, s.useState sel u.name = some u.state

theorem Met.flushUse {selected : SelectedEbuild} {queue : List UseFlag} (h : Met sel queue s)
    (hs : s.selected[sel]? = some selected) (hflush : flushUse sel s = (.ok (), t)) :
    ∀ u ∈ queue, t.useState sel u.name = some u.state := by
  obtain ⟨-, hends, hforced⟩ := flushUse_ok hs hflush
  intro u hu
  rw [hends, h.states u hu, Option.map_some]
  congr 1
  exact lastOf_of_forall (hforced u.name u.state (h.locks u hu) (h.states u hu))

theorem flushUse_withQueue {selected : SelectedEbuild} (hs : s.selected[sel]? = some selected)
    (front back : List UseFlag) : flushUse sel (s.withQueue sel (front ++ back)) =
      (front.forM (flushOne sel) >>= fun _ => back.forM (flushOne sel)) (s.withQueue sel (front ++ back)) := by
  apply (bind_of_ok _ (getSel_ok.mpr ⟨withQueue_get hs _, rfl⟩)).trans
  exact congrFun List.forM_append _

/-- At the end of the queue such entries change nothing. -/
theorem flushUse_agree {selected : SelectedEbuild} {front back : List UseFlag}
    (hs : s.selected[sel]? = some selected) (hfront : selected.flags = front) (hmet : Met sel back s) :
    Agree sel (flushUse sel s) (flushUse sel (s.withQueue sel (front ++ back))) := by
  subst hfront
  have hself : s.withQueue sel selected.flags = s := withQueue_self hs rfl
  rcases hturns : selected.flags.forM (flushTurn sel) s with ⟨r, t⟩
  obtain ⟨queue, hqueue, hown⟩ := flushAll_withQueue selected.flags [] s r t hturns
  obtain ⟨queue', hqueue', hmore⟩ := flushAll_withQueue selected.flags back s r t hturns
  rw [List.append_nil, hself] at hown
  have hflush : flushUse sel s = (r, t.withQueue sel queue) :=
    (bind_of_ok _ (getSel_ok.mpr ⟨hs, rfl⟩)).trans hown
  rw [flushUse_withQueue hs, hflush]
  cases r with
  | error e =>
    rw [bind_of_error _ hmore]
    exact .inr ⟨e, t, queue, queue', rfl, rfl⟩
  | ok a =>
    obtain rfl := hqueue rfl
    obtain rfl := hqueue' rfl
    have hstays : ∀ u ∈ queue', t.useState sel u.name = some u.state := by
      intro u hu
      rw [← withQueue_useState t []]
      exact hmet.flushUse hs hflush u hu
    obtain ⟨rest, hrest, hlast⟩ := flushAll_withQueue queue' [] t _ _ (flushTurns_current hstays)
    rw [List.append_nil, hrest rfl] at hlast
    rw [bind_of_ok _ hmore, hlast]
    exact .inl rfl

/-- What `refresh` does after the flush. -/
def finishRefresh (select : Select) (sel : Nat) (ebuild : Ebuild) : Resolution Unit := do
  let self ← get
  let metadata := self.metadata ebuild
  hookRequiredUse sel metadata.requiredUse
  DependencyContainer.indices.forM fun i =>
    resolveAll select (some sel) (appendGenerator sel i) (metadata.depTypes i)
  modifySel sel fun s => { s with isDirty := false }

theorem refresh_flush (select : Select) {selected : SelectedEbuild} (hs : s.selected[sel]? = some selected) :
    refresh select sel s =
      (loadMetadata selected.ebuild >>= fun _ => flushUse sel >>= fun _ =>
        finishRefresh select sel selected.ebuild) (s.atSel sel SelectedEbuild.cleared) := by
  have hempty : modifySel sel SelectedEbuild.cleared s =
      (.ok (), s.atSel sel SelectedEbuild.cleared) := rfl
  apply (bind_of_ok _ hempty).trans
  exact (bind_of_ok _ (getSel_ok.mpr ⟨cleared_get hs, rfl⟩)).trans rfl

theorem Met.cleared {selected : SelectedEbuild} {queue : List UseFlag} (h : Met sel queue s)
    (hs : s.selected[sel]? = some selected) : Met sel queue (s.atSel sel SelectedEbuild.cleared) := by
  refine ⟨fun u hu => ?_, fun u hu => ?_⟩
  · rw [cleared_locks hs]
    exact h.locks u hu
  · rw [cleared_useState hs]
    exact h.states u hu

theorem Met.loaded {queue : List UseFlag} (h : Met sel queue s) (ebuild : Ebuild) :
    Met sel queue (s.loaded ebuild) := by
  refine ⟨fun u hu => ?_, fun u hu => loaded_useState ebuild (h.states u hu)⟩
  rw [Emerge.locks, (loaded_apart sel s ebuild).2]
  exact h.locks u hu

theorem refresh_agree (select : Select) {selected : SelectedEbuild} {back : List UseFlag}
    (hs : s.selected[sel]? = some selected) (hmet : Met sel back s) :
    Agree sel (refresh select sel s) (refresh select sel (s.withQueue sel (selected.flags ++ back))) := by
  let s₁ := s.atSel sel SelectedEbuild.cleared
  have hqueue : (s.withQueue sel (selected.flags ++ back)).atSel sel SelectedEbuild.cleared =
      s₁.withQueue sel (selected.flags ++ back) := by
    rw [withQueue, withQueue, atSel_atSel, atSel_atSel]
    rfl
  have hown : s₁.withQueue sel selected.flags = s₁ := withQueue_self (cleared_get hs) rfl
  have hagree : Agree sel
      ((loadMetadata selected.ebuild >>= fun _ => flushUse sel >>= fun _ =>
        finishRefresh select sel selected.ebuild) (s₁.withQueue sel selected.flags))
      ((loadMetadata selected.ebuild >>= fun _ => flushUse sel >>= fun _ =>
        finishRefresh select sel selected.ebuild) (s₁.withQueue sel (selected.flags ++ back))) := by
    apply (blind_loadMetadata selected.ebuild).agree_bind
    intro t ht
    obtain rfl := loadMetadata_ok ht
    have ht₁ : (s₁.loaded selected.ebuild).selected[sel]? = some selected.cleared := by
      rw [(loaded_apart sel _ _).2]
      exact cleared_get hs
    have hqueued : (s₁.loaded selected.ebuild).withQueue sel selected.flags = s₁.loaded selected.ebuild :=
      withQueue_self ht₁ rfl
    rw [hqueued]
    apply Agree.bind
    exact flushUse_agree ht₁ rfl ((hmet.cleared hs).loaded selected.ebuild)
  rw [hown] at hagree
  rw [refresh_flush select hs, refresh_flush select (withQueue_get hs _), hqueue]
  exact hagree

theorem refreshIfDirty_dirty (select : Select) {selected : SelectedEbuild} (hs : s.selected[sel]? = some selected)
    (hdirty : selected.isDirty = true) : refreshIfDirty select sel s = refresh select sel s := by
  apply (bind_of_ok _ (getSel_ok.mpr ⟨hs, rfl⟩)).trans
  rw [if_pos hdirty]

/-- Entries for what the flags have and the hooks hold fast make no difference. -/
theorem regenerate_agree (select : Select) (fuel : Nat) {selected : SelectedEbuild} {back : List UseFlag}
    (hs : s.selected[sel]? = some selected) (hdirty : selected.isDirty = true) (hmet : Met sel back s) :
    Agree sel (regenerate select fuel sel s)
      (regenerate select fuel sel (s.withQueue sel (selected.flags ++ back))) := by
  cases fuel with
  | zero =>
    have hself : s.withQueue sel selected.flags = s := withQueue_self hs rfl
    exact .inr ⟨.diverged, s, selected.flags, selected.flags ++ back, by rw [hself]; rfl, rfl⟩
  | succ fuel =>
    refine Agree.bind (c := refreshIfDirty select sel) _ ?_
    have hget := withQueue_get hs (selected.flags ++ back)
    rw [refreshIfDirty_dirty select hs hdirty, refreshIfDirty_dirty select hget hdirty]
    exact refresh_agree select hs hmet

end Flush

end AutoGentoo
