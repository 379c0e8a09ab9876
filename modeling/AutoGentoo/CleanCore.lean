import AutoGentoo.RegenerateDeps

/-! The part of a selected ebuild that says whether it is clean: which calls leave
it as it was, and which make the object dirty. -/

namespace AutoGentoo

open StateExcept Emerge

namespace SelectedEbuild

/-- The ebuild, its global hooks, the queue of flags, the generators and whether it
is dirty. -/
def core (self : SelectedEbuild) : SelectedEbuild :=
  { self with selectedBy := [], useflags := [], useFlagHooks := [], resolvedDeps := .empty }

/-- The same without the generators. -/
def frame (self : SelectedEbuild) : SelectedEbuild := { self.core with generators := .empty }

variable {self other : SelectedEbuild}

theorem frame_of_core (h : self.core = other.core) : self.frame = other.frame := by
  rw [frame, frame, h]

theorem frame_isDirty (h : self.frame = other.frame) : self.isDirty = other.isDirty := by
  have he : self.frame.isDirty = other.frame.isDirty := by rw [h]
  exact he

theorem core_isDirty (h : self.core = other.core) : self.isDirty = other.isDirty :=
  frame_isDirty (frame_of_core h)

end SelectedEbuild

namespace Emerge

/-- The object is in the session or the one that is refreshed. -/
def Guarded (self : Emerge) (z : Option Nat) (sel : Nat) : Prop :=
  sel ∈ self.resolveSession ∨ z = some sel

/-- Only what does not matter for being clean differs. -/
structure SameCore (s t : Emerge) : Prop where
  cache : t.cache = s.cache
  session : t.resolveSession = s.resolveSession
  core : t.selected.map SelectedEbuild.core = s.selected.map SelectedEbuild.core

theorem sameCore_refl (s : Emerge) : SameCore s s := ⟨rfl, rfl, rfl⟩

theorem sameCore_trans (s t r : Emerge) (h : SameCore s t) (h' : SameCore t r) : SameCore s r :=
  ⟨h'.cache.trans h.cache, h'.session.trans h.session, h'.core.trans h.core⟩

theorem SameCore.get {s t : Emerge} (h : SameCore s t) {sel : Nat} {selected : SelectedEbuild}
    (hs : s.selected[sel]? = some selected) :
    ∃ selected', t.selected[sel]? = some selected' ∧ selected.core = selected'.core := by
  have hcore := congrArg (·[sel]?) h.core
  simp only [List.getElem?_map, hs, Option.map_some] at hcore
  obtain ⟨selected', ht, he⟩ := Option.map_eq_some_iff.mp hcore
  exact ⟨selected', ht, he.symm⟩

theorem SameCore.symm {s t : Emerge} (h : SameCore s t) : SameCore t s :=
  ⟨h.cache.symm, h.session.symm, h.core.symm⟩

/-- No guarded object has become another or dirty, where `z` is refreshed; the
generators of `z` may grow. New objects are dirty. -/
structure Calm (z : Option Nat) (s t : Emerge) : Prop where
  cache : t.cache = s.cache
  session : t.resolveSession = s.resolveSession
  own : ∀ (sel : Nat) (selected : SelectedEbuild), z = some sel → s.selected[sel]? = some selected →
    ∃ selected', t.selected[sel]? = some selected' ∧ selected.frame = selected'.frame
  old : ∀ (sel : Nat) (selected : SelectedEbuild), z ≠ some sel → s.selected[sel]? = some selected →
    ∃ selected', t.selected[sel]? = some selected' ∧
      (selected.core = selected'.core ∨ sel ∉ s.resolveSession ∧ selected'.isDirty = true)
  new : ∀ (sel : Nat) (selected' : SelectedEbuild), s.selected[sel]? = none → t.selected[sel]? = some selected' →
    selected'.isDirty = true

theorem SameCore.calm {z : Option Nat} {s t : Emerge} (h : SameCore s t) : Calm z s t where
  cache := h.cache
  session := h.session
  own sel selected _ hs := by
    obtain ⟨selected', ht, he⟩ := h.get hs
    exact ⟨selected', ht, SelectedEbuild.frame_of_core he⟩
  old sel selected _ hs := by
    obtain ⟨selected', ht, he⟩ := h.get hs
    exact ⟨selected', ht, .inl he⟩
  new sel selected' hs ht := by
    obtain ⟨selected, hs', -⟩ := h.symm.get ht
    exact absurd (hs.symm.trans hs') (by simp)

theorem calm_trans {z : Option Nat} {s t r : Emerge} (h : Calm z s t) (h' : Calm z t r) :
    Calm z s r where
  cache := h'.cache.trans h.cache
  session := h'.session.trans h.session
  own sel selected hz hs := by
    obtain ⟨selected', ht, he⟩ := h.own sel selected hz hs
    obtain ⟨selected'', hr, he'⟩ := h'.own sel selected' hz ht
    exact ⟨selected'', hr, he.trans he'⟩
  old sel selected hz hs := by
    obtain ⟨selected', ht, he⟩ := h.old sel selected hz hs
    obtain ⟨selected'', hr, he'⟩ := h'.old sel selected' hz ht
    refine ⟨selected'', hr, ?_⟩
    rcases he' with he' | ⟨hnot, hdirty⟩
    · rcases he with he | ⟨hnot, hdirty⟩
      · exact .inl (he.trans he')
      · exact .inr ⟨hnot, SelectedEbuild.core_isDirty he' ▸ hdirty⟩
    · exact .inr ⟨h.session ▸ hnot, hdirty⟩
  new sel selected'' hs hr := by
    cases ht : t.selected[sel]? with
    | none => exact h'.new sel selected'' ht hr
    | some selected' =>
      have hdirty := h.new sel selected' hs ht
      by_cases hz : z = some sel
      · obtain ⟨other, hr', he⟩ := h'.own sel selected' hz ht
        obtain rfl := Option.some.inj (hr.symm.trans hr')
        exact SelectedEbuild.frame_isDirty he ▸ hdirty
      · obtain ⟨other, hr', he⟩ := h'.old sel selected' hz ht
        obtain rfl := Option.some.inj (hr.symm.trans hr')
        rcases he with he | ⟨-, he⟩
        · exact SelectedEbuild.core_isDirty he ▸ hdirty
        · exact he

end Emerge

theorem modifySel_sameCore (sel : Nat) (f : SelectedEbuild → SelectedEbuild)
    (hf : ∀ s, (f s).core = s.core) : Respects SameCore (modifySel sel f) :=
  fun s => ⟨rfl, rfl, map_modify_of_eq hf s.selected sel⟩

theorem sameCore_bind {α β : Type} {c : Resolution α} {f : α → Resolution β}
    (hc : Respects SameCore c) (hf : ∀ a, Respects SameCore (f a)) : Respects SameCore (c >>= f) :=
  Respects.bind sameCore_trans hc hf

theorem sameCore_pure {α : Type} (a : α) : Respects SameCore (pure a : Resolution α) :=
  respects_pure sameCore_refl a

theorem sameCore_raise {α : Type} (e : Stop) : Respects SameCore (throw e : Resolution α) :=
  respects_throw sameCore_refl e

theorem sameCore_get : Respects SameCore (get : Resolution Emerge) := respects_get sameCore_refl

theorem getSel_sameCore (sel : Nat) : Respects SameCore (getSel sel) :=
  fun s => (getSel_state sel s).symm ▸ sameCore_refl s

theorem raising_sameCore {α : Type} (r : Except PyError α) : Respects SameCore (raising r) := by
  cases r with
  | ok a => exact sameCore_pure a
  | error e => exact sameCore_raise _

theorem useFlags_sameCore (sel : Nat) : Respects SameCore (useFlags sel) :=
  sameCore_bind (getSel_sameCore sel) fun _ => sameCore_bind sameCore_get fun _ => sameCore_pure _

theorem addUse_sameCore (sel : Nat) (name : List Char) (value : Bool) :
    Respects SameCore (addUse sel name value) :=
  modifySel_sameCore sel _ fun _ => rfl

/-- The hooks of a flag do not matter. -/
theorem runHookAt_sameCore (sel : Nat) (name : List Char) (arg : Option Bool) (i : Nat) :
    Respects SameCore (runHookAt sel (some name) arg i) := by
  refine sameCore_bind (useFlags_sameCore sel) fun flags => ?_
  refine sameCore_bind (getSel_sameCore sel) fun selected => ?_
  split
  · exact sameCore_pure _
  · exact sameCore_bind (raising_sameCore _) fun _ => modifySel_sameCore sel _ fun _ => rfl

theorem runHooks_sameCore (sel : Nat) (name : List Char) (arg : Option Bool) :
    Respects SameCore (runHooks sel (some name) arg) :=
  sameCore_bind (getSel_sameCore sel) fun _ =>
    respects_forM sameCore_refl sameCore_trans fun i _ => runHookAt_sameCore sel name arg i

theorem hookArg_sameCore (sel : Nat) (name : Option (List Char)) :
    Respects SameCore (hookArg sel name) := by
  cases name with
  | none => exact sameCore_pure _
  | some name =>
    exact sameCore_bind (useFlags_sameCore sel) fun _ =>
      sameCore_bind (raising_sameCore _) fun _ => sameCore_pure _

theorem addUseHook_sameCore (sel : Nat) (useflag : UseFlag) (hook : Hookable) :
    Respects SameCore (addUseHook sel (some useflag) hook) := by
  refine sameCore_bind (getSel_sameCore sel) fun selected => ?_
  refine sameCore_bind (modifySel_sameCore sel _ fun _ => rfl) fun _ => ?_
  exact sameCore_bind (hookArg_sameCore sel _) fun arg => runHookAt_sameCore sel _ arg _

theorem resolveCondition_sameCore (parent : Nat) (useOperator : UseOperator) (useCondition : Nat)
    (children : DependTree) :
    Respects SameCore (resolveCondition parent useOperator useCondition children) := by
  refine sameCore_bind sameCore_get fun self => ?_
  split_ifs with hc ho hn
  · exact sameCore_pure _
  · exact sameCore_raise _
  · split <;> exact sameCore_raise _
  · split
    · exact sameCore_raise _
    · exact addUseHook_sameCore parent _ _

theorem addBlock_sameCore (atom : Atom) : Respects SameCore (addBlock atom) := fun _ => ⟨rfl, rfl, rfl⟩

theorem scheduleUse_calm {z : Option Nat} {sel : Nat} {s : Emerge} (h : ¬ s.Guarded z sel)
    (useflag : UseFlag) : Calm z s (scheduleUse sel useflag s).2 := by
  obtain ⟨hnot, hz⟩ := not_or.mp h
  refine ⟨rfl, rfl, fun sel' selected hz' hs => ?_, fun sel' selected hz' hs => ?_, fun sel' selected' hs ht => ?_⟩
  · have hne : sel ≠ sel' := fun he => hz (he ▸ hz')
    exact ⟨selected, (modifySel_ne hne _ s).trans hs, rfl⟩
  · by_cases hne : sel = sel'
    · subst hne
      exact ⟨_, by rw [scheduleUse, modifySel_self, hs]; rfl, .inr ⟨hnot, rfl⟩⟩
    · exact ⟨selected, (modifySel_ne hne _ s).trans hs, .inl rfl⟩
  · have hlen := congrArg Option.isSome ht
    rw [scheduleUse, modifySel, List.getElem?_modify, hs] at hlen
    exact absurd hlen (by simp)

/-- Whether a UseSelection of this kind sets the flag of its ebuild. -/
def AtomUse.schedules : AtomUse → Bool
  | .enable | .disable | .opposite => true
  | .disableIfOff | .enableIfOn | .equal => false

theorem newUseSelection_quiet (sel : Nat) (useFlag : UseFlag) {flag : AtomUse}
    (h : flag.schedules = false) : Respects SameCore (newUseSelection sel useFlag flag) := by
  cases flag with
  | enable | disable | opposite => exact absurd h (by simp [AtomUse.schedules])
  | disableIfOff | enableIfOn | equal => exact sameCore_pure _

theorem newUseSelection_calm {z : Option Nat} {sel : Nat} {s : Emerge} (h : ¬ s.Guarded z sel)
    (useFlag : UseFlag) (flag : AtomUse) : Calm z s (newUseSelection sel useFlag flag s).2 := by
  cases flag with
  | enable | disable | opposite => exact scheduleUse_calm h _
  | disableIfOff | enableIfOn | equal => exact (sameCore_refl s).calm

theorem addUseRequirement_quiet (sel : Nat) (name : List Char) {flag : AtomUse}
    (h : flag.schedules = false) : Respects SameCore (addUseRequirement sel name flag) := by
  refine sameCore_bind (useFlags_sameCore sel) fun flags => ?_
  refine sameCore_bind (raising_sameCore _) fun use => ?_
  exact sameCore_bind (newUseSelection_quiet sel use h) fun hook => addUseHook_sameCore sel _ hook

theorem addUseRequirement_calm {z : Option Nat} {sel : Nat} {s t : Emerge} (h : ¬ s.Guarded z sel)
    {name : List Char} {flag : AtomUse} (hrun : addUseRequirement sel name flag s = (.ok (), t)) :
    Calm z s t := by
  obtain ⟨flags, u, hflags, hrun⟩ := bind_ok.mp hrun
  obtain ⟨use, v, hraise, hrun⟩ := bind_ok.mp hrun
  obtain ⟨hook, w, hnew, hadd⟩ := bind_ok.mp hrun
  have hsame := sameCore_trans _ _ _ ((useFlags_sameCore sel).ok hflags) ((raising_sameCore _).ok hraise)
  have hv : ¬ v.Guarded z sel := fun hg => h (by rwa [Guarded, hsame.session] at hg)
  have hcalm : Calm z v w := by
    have hstep := newUseSelection_calm hv use flag
    rwa [hnew] at hstep
  exact calm_trans (calm_trans hsame.calm hcalm) ((addUseHook_sameCore sel _ hook).ok hadd).calm

/-- The object has the flag, and the requirement does not set it. -/
def QuietUse (sel : Nat) (use : AtomFlag) (s : Emerge) : Prop :=
  (∀ selected, s.selected[sel]? = some selected → UseFlags.hasUse
    { useflags := selected.useflags, iuse := (s.metadata selected.ebuild).iuse } use.name = true) ∧
    use.option.schedules = false

theorem useFlags_ok {sel : Nat} {s t : Emerge} {flags : UseFlags} (h : useFlags sel s = (.ok flags, t)) :
    t = s ∧ ∃ selected, s.selected[sel]? = some selected ∧
      flags = { useflags := selected.useflags, iuse := (s.metadata selected.ebuild).iuse } := by
  obtain ⟨selected, u, hget, hrest⟩ := bind_ok.mp h
  obtain ⟨self, v, hself, hend⟩ := bind_ok.mp hrest
  obtain ⟨hs, rfl⟩ := getSel_ok.mp hget
  obtain ⟨rfl, rfl⟩ := get_ok.mp hself
  obtain ⟨rfl, rfl⟩ := pure_ok.mp hend
  exact ⟨rfl, selected, hs, rfl⟩

theorem requireUse_calm {z : Option Nat} {sel : Nat} {use : AtomFlag} {s t : Emerge}
    (hquiet : s.Guarded z sel → QuietUse sel use s) (h : requireUse sel use s = (.ok (), t)) :
    Calm z s t := by
  obtain ⟨flags, u, hflags, hrest⟩ := bind_ok.mp h
  obtain ⟨rfl, selected, hs, hfl⟩ := useFlags_ok hflags
  by_cases hg : u.Guarded z sel
  · obtain ⟨hhas, hsched⟩ := hquiet hg
    rw [if_pos (hfl ▸ hhas selected hs)] at hrest
    exact ((addUseRequirement_quiet sel use.name hsched).ok hrest).calm
  · split_ifs at hrest with hhas
    · exact addUseRequirement_calm hg hrest
    · have hadd : ∀ value flag, (do addUse sel use.name value; addUseRequirement sel use.name flag) u =
          (.ok (), t) → Calm z u t := by
        intro value flag hrun
        obtain ⟨_, v, hv, hrun⟩ := bind_ok.mp hrun
        have hsame := (addUse_sameCore sel use.name value).ok hv
        refine calm_trans hsame.calm (addUseRequirement_calm (fun hg' => hg ?_) hrun)
        rwa [Guarded, hsame.session] at hg'
      cases hd : use.defaultMember with
      | none =>
        simp only [hd] at hrest
        exact absurd hrest throw_ok
      | some dflt =>
        simp only [hd] at hrest
        cases dflt with
        | none => exact absurd hrest throw_ok
        | on | off => exact hadd _ _ hrest

end AutoGentoo
