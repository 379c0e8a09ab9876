import AutoGentoo.CleanCore
import AutoGentoo.EmergeSlots
import AutoGentoo.GuardedRun

/-! Runs in which no call makes an object of the session dirty: the session stays
clean. -/

namespace AutoGentoo

open StateExcept Emerge GuardedRun

namespace Emerge

/-- Selecting for the atom does not change the ebuild of a guarded object. -/
def Untouched (self : Emerge) (z : Option Nat) (atom : Atom) : Prop :=
  ∀ sel candidate, self.Changes atom sel candidate → self.Switches atom sel candidate →
    ¬ self.Guarded z sel

instance decidableGuarded (self : Emerge) (z : Option Nat) (sel : Nat) : Decidable (self.Guarded z sel) :=
  inferInstanceAs (Decidable (_ ∨ _))

instance decidableAccepts (selected : SelectedEbuild) (atom : Atom) (candidate : Ebuild) :
    Decidable (selected.Accepts atom candidate) :=
  inferInstanceAs (Decidable (_ ∧ ∀ a ∈ selected.deciding atom, _))

instance decidableSwitches (self : Emerge) (atom : Atom) (sel : Nat) (candidate : Ebuild) :
    Decidable (self.Switches atom sel candidate) :=
  match hs : self.selected[sel]? with
  | none => isFalse fun ⟨_, h, _⟩ => absurd (hs.symm.trans h) (by simp)
  | some selected => decidable_of_iff (selected.Accepts atom candidate)
      ⟨fun h => ⟨selected, hs, h⟩, fun ⟨_, h, ha⟩ => Option.some.inj (h.symm.trans hs) ▸ ha⟩

instance decidableUntouched (self : Emerge) (z : Option Nat) (atom : Atom) : Decidable (self.Untouched z atom) :=
  match hway : self.way atom with
  | .changes sel candidate => decidable_of_iff (self.Switches atom sel candidate → ¬ self.Guarded z sel)
      ⟨fun h sel' candidate' hc => by
        obtain ⟨rfl, rfl⟩ := Way.changes.inj ((way_of_changes hc).symm.trans hway)
        exact h, fun h => h sel candidate (changes_iff.mpr hway)⟩
  | .raises | .aborts | .reuses _ | .unknownSlot | .creates _ _ _ => isTrue fun _ _ hc =>
      absurd ((way_of_changes hc).symm.trans hway) (by simp)

theorem created_calm (self : Emerge) (z : Option Nat) (key : List Char) (pkg : InstallPackage)
    (parent : Option Nat) (atom : Atom) (ebuild : Ebuild) :
    Calm z self (self.created key pkg parent atom ebuild) := by
  have hold {sel : Nat} {selected : SelectedEbuild} (hs : self.selected[sel]? = some selected) :
      (self.created key pkg parent atom ebuild).selected[sel]? = some selected :=
    (List.getElem?_append_left (List.getElem?_eq_some_iff.mp hs).1).trans hs
  refine ⟨rfl, rfl, fun sel selected _ hs => ⟨selected, hold hs, rfl⟩,
    fun sel selected _ hs => ⟨selected, hold hs, .inl rfl⟩, fun sel selected' hs ht => ?_⟩
  have hle := List.getElem?_eq_none_iff.mp hs
  rw [show (self.created key pkg parent atom ebuild).selected[sel]? =
    [SelectedEbuild.init parent atom ebuild][sel - self.selected.length]? from
      List.getElem?_append_right hle] at ht
  rw [List.mem_singleton.mp (List.mem_of_getElem? ht)]
  rfl

theorem changed_calm {self : Emerge} {z : Option Nat} {sel : Nat} (h : ¬ self.Guarded z sel)
    {selected : SelectedEbuild} (hs : self.selected[sel]? = some selected) (candidate : Ebuild) :
    Calm z self (self.changed sel selected candidate) := by
  obtain ⟨hnot, hz⟩ := not_or.mp h
  have hlt := (List.getElem?_eq_some_iff.mp hs).1
  have hother {sel' : Nat} (hne : sel ≠ sel') :
      (self.changed sel selected candidate).selected[sel']? = self.selected[sel']? :=
    List.getElem?_set_ne hne
  refine ⟨rfl, rfl, fun sel' selected' hz' hs' => ?_, fun sel' selected' hz' hs' => ?_,
    fun sel' selected' hs' ht => ?_⟩
  · have hne : sel ≠ sel' := fun he => hz (he ▸ hz')
    exact ⟨selected', (hother hne).trans hs', rfl⟩
  · by_cases hne : sel = sel'
    · subst hne
      exact ⟨_, List.getElem?_set_self hlt, .inr ⟨hnot, rfl⟩⟩
    · exact ⟨selected', (hother hne).trans hs', .inl rfl⟩
  · have hne : sel ≠ sel' := by
      rintro rfl
      exact absurd (hs.symm.trans hs') (by simp)
    exact absurd ((hother hne).symm.trans ht) (by simp [hs'])

theorem switched_calm {self : Emerge} {z : Option Nat} {atom : Atom} {sel : Nat} {candidate : Ebuild}
    (h : self.Switches atom sel candidate → ¬ self.Guarded z sel) :
    Calm z self (self.switched atom sel candidate) := by
  rcases switched_cases self atom sel candidate with ⟨selected, hs, hsw, he⟩ | ⟨-, he⟩
  · rw [he]
    exact changed_calm (h hsw) hs candidate
  · rw [he]
    exact (sameCore_refl self).calm

theorem selects_calm {self : Emerge} {z : Option Nat} {atom : Atom} (h : self.Untouched z atom)
    (parent : Option Nat) : Calm z self (self.selects parent atom) := by
  rw [selects]
  split
  · exact created_calm self z _ _ _ _ _
  · next sel candidate hway => exact switched_calm (h sel candidate (changes_iff.mpr hway))
  · exact (sameCore_refl self).calm

end Emerge

/-- Selecting for the atom leaves the guarded objects, and so do the flags it
requires of the one selected. -/
def QuietAtom (z : Option Nat) (parent : Option Nat) (atom : Atom) (s : Emerge) : Prop :=
  s.Untouched z atom ∧ ∀ sel t, selectAtom parent atom s = .ok (some sel, t) →
    Along (requireUse sel) (fun use u => u.Guarded z sel → QuietUse sel use u) atom.useflags t

instance decidableQuietUse (sel : Nat) (use : AtomFlag) (s : Emerge) : Decidable (QuietUse sel use s) :=
  inferInstanceAs (Decidable ((∀ selected ∈ s.selected[sel]?, UseFlags.hasUse
    { useflags := selected.useflags, iuse := (s.metadata selected.ebuild).iuse } use.name = true) ∧ _))

instance decidableQuietAtom (z : Option Nat) (parent : Option Nat) (atom : Atom) (s : Emerge) :
    Decidable (QuietAtom z parent atom s) :=
  match hs : selectAtom parent atom s with
  | .ok (some sel, t) => decidable_of_iff (s.Untouched z atom ∧
      Along (requireUse sel) (fun use u => u.Guarded z sel → QuietUse sel use u) atom.useflags t)
      (and_congr_right' ⟨fun h sel' t' hs' => by
        obtain ⟨hsel, rfl⟩ := Prod.mk.inj (Except.ok.inj (hs.symm.trans hs'))
        exact Option.some.inj hsel ▸ h, fun h => h sel t hs⟩)
  | .ok (none, _) | .error _ => decidable_of_iff (s.Untouched z atom)
      (iff_self_and.mpr fun _ _ _ hs' => absurd (hs.symm.trans hs') (by simp))

theorem selectAtom_calm {z parent : Option Nat} {atom : Atom} {s t : Emerge} {r : Option Nat}
    (hquiet : s.Untouched z atom) (h : selectAtom parent atom s = .ok (r, t)) : Calm z s t := by
  rcases selectAtom_selects s parent atom with ⟨r', hr⟩ | ⟨⟨e, he⟩, -⟩
  · obtain ⟨-, rfl⟩ := Prod.mk.inj (Except.ok.inj (h.symm.trans hr))
    exact selects_calm hquiet parent
  · exact absurd (h.symm.trans he) (by simp)

theorem resolveAtom_calm {z parent : Option Nat} {atom : Atom} {s t : Emerge} {r : Option Generator}
    (hquiet : QuietAtom z parent atom s) (h : resolveAtom selectAtom parent atom s = (.ok r, t)) :
    Calm z s t := by
  obtain ⟨found, u, hselect, hrest⟩ := bind_ok.mp h
  have hsel := ofCall_ok.mp hselect
  have hcalm := selectAtom_calm hquiet.1 hsel
  cases found with
  | none =>
    simp only at hrest
    split_ifs at hrest
    · obtain ⟨-, rfl⟩ := pure_ok.mp hrest
      exact hcalm
    · exact absurd hrest throw_ok
  | some sel =>
    obtain ⟨_, v, huse, hend⟩ := bind_ok.mp hrest
    obtain ⟨-, rfl⟩ := pure_ok.mp hend
    have hstep : ∀ use ∈ atom.useflags, ∀ s' t', Calm z s s' → (s'.Guarded z sel → QuietUse sel use s') →
        requireUse sel use s' = (.ok (), t') → Calm z s t' :=
      fun use _ s' t' hs' hq hrun => calm_trans hs' (requireUse_calm hq hrun)
    exact (hquiet.2 sel u hsel).invariant hstep hcalm huse

/-- Along an expression of the object `sel`. -/
def QuietAll (sel : Nat) (i : Fin 4) : DependTree → Emerge → Prop
  | .null, _ => True
  | .node useOperator useCondition atom children next, s =>
    (∀ a ∈ requestedAtom atom, QuietAtom (some sel) (some sel) a s) ∧
      ∀ r u t, resolveSingle selectAtom (some sel) useOperator useCondition atom children s = (.ok r, u) →
        yieldTo (appendGenerator sel i) r u = (.ok (), t) → QuietAll sel i next t

instance decidableQuietAll (sel : Nat) (i : Fin 4) : (e : DependTree) → (s : Emerge) → Decidable (QuietAll sel i e s)
  | .null, _ => isTrue trivial
  | .node useOperator useCondition atom children next, s =>
    have : ∀ t, Decidable (QuietAll sel i next t) := decidableQuietAll sel i next
    decidable_of_iff ((∀ a ∈ requestedAtom atom, QuietAtom (some sel) (some sel) a s) ∧
      ∀ r u, resolveSingle selectAtom (some sel) useOperator useCondition atom children s = (.ok r, u) →
        ∀ v t, yieldTo (appendGenerator sel i) r u = (.ok v, t) → QuietAll sel i next t)
      (and_congr_right' ⟨fun h r u t hr => h r u hr ⟨⟩ t, fun h r u hr _ t => h r u t hr⟩)

theorem resolveSingle_calm {sel : Nat} {useOperator : UseOperator} {useCondition : Nat}
    {atom : Option Atom} {children : DependTree} {s t : Emerge} {r : Option Generator}
    (hquiet : ∀ a ∈ requestedAtom atom, QuietAtom (some sel) (some sel) a s)
    (h : resolveSingle selectAtom (some sel) useOperator useCondition atom children s = (.ok r, t)) :
    Calm (some sel) s t := by
  cases atom with
  | none =>
    obtain ⟨_, u, hc, hr⟩ := bind_ok.mp h
    obtain ⟨-, rfl⟩ := pure_ok.mp hr
    exact ((resolveCondition_sameCore sel _ _ _).ok hc).calm
  | some atom =>
    simp only [resolveSingle] at h
    split_ifs at h with hb
    · obtain ⟨_, u, hblock, hr⟩ := bind_ok.mp h
      obtain ⟨-, rfl⟩ := pure_ok.mp hr
      exact ((addBlock_sameCore atom).ok hblock).calm
    · refine resolveAtom_calm (hquiet atom ?_) h
      rw [requestedAtom, if_pos (not_not.mp hb)]
      exact List.mem_singleton_self atom

theorem modifySel_calm (sel : Nat) {f : SelectedEbuild → SelectedEbuild}
    (hf : ∀ s, (f s).frame = s.frame) (s : Emerge) : Calm (some sel) s (modifySel sel f s).2 := by
  refine ⟨rfl, rfl, fun sel' selected hz hs => ?_, fun sel' selected hz hs => ?_, fun sel' selected' hs ht => ?_⟩
  · obtain rfl := Option.some.inj hz
    exact ⟨_, by rw [modifySel_self, hs]; rfl, (hf selected).symm⟩
  · have hne : sel ≠ sel' := fun he => hz (congrArg some he)
    exact ⟨selected, (modifySel_ne hne f s).trans hs, .inl rfl⟩
  · have hlen := congrArg Option.isSome ht
    rw [modifySel, List.getElem?_modify, hs] at hlen
    exact absurd hlen (by simp)

theorem appendGenerator_calm {sel : Nat} {i : Fin 4} {dep : Generator} {s t : Emerge}
    (h : appendGenerator sel i dep s = (.ok (), t)) : Calm (some sel) s t := by
  obtain rfl : (appendGenerator sel i dep s).2 = t := by rw [h]
  refine modifySel_calm sel ?_ s
  exact fun _ => rfl

theorem resolveAll_calm {sel : Nat} {i : Fin 4} {expression : DependTree} {s t : Emerge}
    (hquiet : QuietAll sel i expression s)
    (h : resolveAll selectAtom (some sel) (appendGenerator sel i) expression s = (.ok (), t)) :
    Calm (some sel) s t := by
  induction expression generalizing s with
  | null =>
    obtain ⟨-, rfl⟩ := pure_ok.mp h
    exact (sameCore_refl s).calm
  | node useOperator useCondition atom children next _ ih =>
    obtain ⟨r, u, hsingle, hrest⟩ := bind_ok.mp h
    obtain ⟨_, v, hyield, hnext⟩ := bind_ok.mp hrest
    have hcalm : Calm (some sel) u v := by
      cases r with
      | none =>
        obtain ⟨-, rfl⟩ := pure_ok.mp hyield
        exact (sameCore_refl u).calm
      | some dep => exact appendGenerator_calm hyield
    exact calm_trans (calm_trans (resolveSingle_calm hquiet.1 hsingle) hcalm)
      (ih (hquiet.2 r u v hsingle hyield) hnext)

/-- The objects but for one, the files and the session are as they were. -/
structure Emerge.Apart (sel : Nat) (s t : Emerge) : Prop where
  cache : t.cache = s.cache
  session : t.resolveSession = s.resolveSession
  other : ∀ y, y ≠ sel → t.selected[y]? = s.selected[y]?

namespace Emerge

theorem Apart.trans {sel : Nat} {s t r : Emerge} (h : Apart sel s t) (h' : Apart sel t r) :
    Apart sel s r :=
  ⟨h'.cache.trans h.cache, h'.session.trans h.session,
    fun y hy => (h'.other y hy).trans (h.other y hy)⟩

theorem SameButUse.cache {s t : Emerge} (h : SameButUse s t) : t.cache = s.cache := by
  have hs : t.settled.cache = s.settled.cache := by rw [h]
  exact hs

theorem OnlyUseOf.apart {sel : Nat} {s t : Emerge} (h : OnlyUseOf sel s t) : Apart sel s t :=
  ⟨h.1.cache, h.1.resolveSession.symm, h.2⟩

/-- The object at `sel` is there, with this frame. -/
def HasFrame (self : Emerge) (sel : Nat) (frame : SelectedEbuild) : Prop :=
  ∃ selected, self.selected[sel]? = some selected ∧ selected.frame = frame

theorem SameCore.hasFrame {s t : Emerge} (h : SameCore s t) {sel : Nat} {frame : SelectedEbuild}
    (hs : s.HasFrame sel frame) : t.HasFrame sel frame := by
  obtain ⟨selected, hs, rfl⟩ := hs
  obtain ⟨selected', ht, he⟩ := h.get hs
  exact ⟨selected', ht, (SelectedEbuild.frame_of_core he).symm⟩

theorem Calm.hasFrame {sel : Nat} {s t : Emerge} (h : Calm (some sel) s t) {frame : SelectedEbuild}
    (hs : s.HasFrame sel frame) : t.HasFrame sel frame := by
  obtain ⟨selected, hs, rfl⟩ := hs
  obtain ⟨selected', ht, he⟩ := h.own sel selected rfl hs
  exact ⟨selected', ht, he.symm⟩

end Emerge

theorem modifySel_apart {sel : Nat} {f : SelectedEbuild → SelectedEbuild} {s t : Emerge}
    (h : modifySel sel f s = (.ok (), t)) : Apart sel s t := by
  obtain rfl : (modifySel sel f s).2 = t := by rw [h]
  exact ⟨rfl, rfl, fun y hy => modifySel_ne hy.symm f s⟩

theorem modifySel_hasFrame {sel : Nat} {f : SelectedEbuild → SelectedEbuild} {s t : Emerge}
    {frame frame' : SelectedEbuild} (hf : ∀ s : SelectedEbuild, s.frame = frame → (f s).frame = frame')
    (hs : s.HasFrame sel frame) (h : modifySel sel f s = (.ok (), t)) : t.HasFrame sel frame' := by
  obtain ⟨selected, hs, hframe⟩ := hs
  exact ⟨f selected, by rw [(modifySel_ok h).1, hs]; rfl, hf selected hframe⟩

theorem raising_ok {α : Type} {r : Except PyError α} {s t : Emerge} {a : α} :
    raising r s = (.ok a, t) ↔ r = .ok a ∧ t = s := by
  cases r with
  | ok b =>
    constructor
    · intro h
      obtain ⟨h1, rfl⟩ := Prod.mk.inj h
      exact ⟨by rw [Except.ok.inj h1], rfl⟩
    · rintro ⟨h, rfl⟩
      rw [Except.ok.inj h]
      rfl
  | error e =>
    constructor
    · intro h
      exact absurd (Prod.mk.inj h).1 (by simp)
    · rintro ⟨h, -⟩
      exact absurd h (by simp)

theorem runHooks_none {sel : Nat} {s t : Emerge} {frame : SelectedEbuild} {arg : Option Bool}
    (hs : s.HasFrame sel frame) (hnil : frame.globalFlagHooks = [])
    (h : runHooks sel none arg s = (.ok (), t)) : t = s := by
  obtain ⟨selected, hs, rfl⟩ := hs
  obtain ⟨selected', u, hget, hrest⟩ := bind_ok.mp h
  obtain ⟨hs', rfl⟩ := getSel_ok.mp hget
  obtain rfl := Option.some.inj (hs.symm.trans hs')
  have hlen : (selected.hooks none).length = 0 := congrArg List.length hnil
  rw [hlen] at hrest
  exact (pure_ok.mp hrest).2.symm

theorem flushOne_hasFrame {sel : Nat} {useflag : UseFlag} {s t : Emerge} {frame : SelectedEbuild}
    (hs : s.HasFrame sel frame) (hnil : frame.globalFlagHooks = [])
    (h : flushOne sel useflag s = (.ok (), t)) :
    t.HasFrame sel { frame with flags := frame.flags.tail } := by
  obtain ⟨_, s₁, hpop, hrest⟩ := bind_ok.mp h
  obtain ⟨flags, s₂, hflags, hrest₂⟩ := bind_ok.mp hrest
  obtain ⟨current, s₃, hraise, hrest₃⟩ := bind_ok.mp hrest₂
  obtain ⟨rfl, -⟩ := useFlags_ok hflags
  obtain ⟨-, rfl⟩ := raising_ok.mp hraise
  have hpopped : s₃.HasFrame sel { frame with flags := frame.flags.tail } := by
    refine modifySel_hasFrame ?_ hs hpop
    rintro selected rfl
    rfl
  split_ifs at hrest₃
  · obtain ⟨-, rfl⟩ := pure_ok.mp hrest₃
    exact hpopped
  · obtain ⟨_, s₄, hset, hhooks⟩ := bind_ok.mp hrest₃
    obtain ⟨_, s₅, hrun, hglobal⟩ := bind_ok.mp hhooks
    have hset' : SameCore s₃ s₄ := by
      refine (modifySel_sameCore sel _ ?_).ok hset
      exact fun _ => rfl
    have hframe := ((runHooks_sameCore sel _ _).ok hrun).hasFrame (hset'.hasFrame hpopped)
    rw [runHooks_none hframe hnil hglobal]
    exact hframe

theorem flushUse_hasFrame {sel : Nat} {s t : Emerge} {frame : SelectedEbuild}
    (hs : s.HasFrame sel frame) (hnil : frame.globalFlagHooks = [])
    (h : flushUse sel s = (.ok (), t)) : t.HasFrame sel { frame with flags := [] } := by
  have hloop : ∀ (l : List UseFlag) (s : Emerge) (frame : SelectedEbuild), s.HasFrame sel frame →
      frame.globalFlagHooks = [] → frame.flags = l → l.forM (flushOne sel) s = (.ok (), t) →
        t.HasFrame sel { frame with flags := [] } := by
    intro l
    induction l with
    | nil =>
      intro s frame hs _ hflags hrun
      obtain ⟨-, rfl⟩ := pure_ok.mp hrun
      rw [← hflags]
      exact hs
    | cons useflag l ih =>
      intro s frame hs hnil hflags hrun
      obtain ⟨r, hone, hrest⟩ := forM_ok.mp hrun
      have htail : frame.flags.tail = l := by rw [hflags, List.tail_cons]
      have hend := ih r { frame with flags := frame.flags.tail } (flushOne_hasFrame hs hnil hone) hnil
        htail hrest
      exact hend
  obtain ⟨selected, u, hget, hrest⟩ := bind_ok.mp h
  obtain ⟨hsel, rfl⟩ := getSel_ok.mp hget
  obtain ⟨selected', hs', rfl⟩ := hs
  obtain rfl := Option.some.inj (hsel.symm.trans hs')
  exact hloop selected.flags u _ ⟨selected, hs', rfl⟩ hnil rfl hrest

/-- The hooks for the expression of an ebuild. -/
def requiredHooks (expression : UseTree) : List Hookable :=
  if expression = .null then [] else [.requiredUse expression]

theorem runHook_requiredUse {expression : UseTree} {flags : UseFlags} {arg : Option Bool}
    {hook : Hookable} (h : (Hookable.requiredUse expression).runHook flags arg = .ok hook) :
    hook = .requiredUse expression := by
  simp only [Hookable.runHook] at h
  cases hr : RequiredUseHook.runHook flags expression with
  | error e => exact absurd (hr ▸ h) (by simp [Except.map])
  | ok u =>
    rw [hr] at h
    exact (Except.ok.inj h).symm

theorem runHookAt_requiredUse {sel : Nat} {expression : UseTree} {arg : Option Bool} {s t : Emerge}
    {frame : SelectedEbuild} (hs : s.HasFrame sel frame)
    (hhooks : frame.globalFlagHooks = [.requiredUse expression])
    (h : runHookAt sel none arg 0 s = (.ok (), t)) : t.HasFrame sel frame := by
  obtain ⟨flags, u, hflags, hrest⟩ := bind_ok.mp h
  obtain ⟨selected, v, hget, hrest₂⟩ := bind_ok.mp hrest
  obtain ⟨rfl, -⟩ := useFlags_ok hflags
  obtain ⟨hsel, rfl⟩ := getSel_ok.mp hget
  obtain ⟨selected', hs', rfl⟩ := hs
  obtain rfl := Option.some.inj (hsel.symm.trans hs')
  have hnone : selected.hooks none = [.requiredUse expression] := hhooks
  rw [hnone] at hrest₂
  obtain ⟨hook, w, hraise, hset⟩ := bind_ok.mp hrest₂
  obtain ⟨hrun, rfl⟩ := raising_ok.mp hraise
  obtain rfl := runHook_requiredUse hrun
  refine modifySel_hasFrame ?_ ⟨selected, hsel, rfl⟩ hset
  intro other hother
  have hsame : other.globalFlagHooks = [.requiredUse expression] := by
    rw [← hhooks, ← hother]
    rfl
  rw [← hother, show other.hooks none = [.requiredUse expression] from hsame]
  have hself : other.setHooks none [.requiredUse expression] = other := by
    rw [← hsame]
    rfl
  exact congrArg SelectedEbuild.frame hself

theorem hookRequiredUse_hasFrame {sel : Nat} {expression : UseTree} {s t : Emerge}
    {frame : SelectedEbuild} (hs : s.HasFrame sel frame) (hnil : frame.globalFlagHooks = [])
    (h : hookRequiredUse sel expression s = (.ok (), t)) :
    t.HasFrame sel { frame with globalFlagHooks := requiredHooks expression } := by
  rw [hookRequiredUse] at h
  rw [requiredHooks]
  split_ifs at h ⊢ with hnull
  · obtain ⟨-, rfl⟩ := pure_ok.mp h
    rw [← hnil]
    exact hs
  · obtain ⟨selected, u, hget, hrest⟩ := bind_ok.mp h
    obtain ⟨_, v, happend, hrest₂⟩ := bind_ok.mp hrest
    obtain ⟨arg, w, harg, hrun⟩ := bind_ok.mp hrest₂
    obtain ⟨hsel, rfl⟩ := getSel_ok.mp hget
    obtain ⟨rfl, rfl⟩ := pure_ok.mp harg
    obtain ⟨selected', hs', rfl⟩ := hs
    obtain rfl := Option.some.inj (hsel.symm.trans hs')
    have hhooks : selected.hooks none = [] := hnil
    have hv : v.HasFrame sel { selected.frame with globalFlagHooks := [.requiredUse expression] } := by
      refine modifySel_hasFrame ?_ ⟨selected, hsel, rfl⟩ happend
      intro other hother
      have hempty : other.hooks none = [] := by
        rw [← hnil, ← hother]
        rfl
      rw [← hother, Option.map_none, hempty]
      rfl
    rw [Option.map_none, hhooks] at hrun
    exact runHookAt_requiredUse hv rfl hrun

namespace Emerge

/-- Nothing waits, and the hook and the generators come from the ebuild held: the
generators are the objects the requests in its file were answered with, in some state. -/
structure CleanAt (s : Emerge) (sel : Nat) (selected : SelectedEbuild) : Prop where
  flags : selected.flags = []
  hook : selected.globalFlagHooks = requiredHooks (s.file selected.ebuild).requiredUse
  generators : ∃ at₀, selected.generators =
    DependencyContainer.empty.appendAll (answered (some sel) (s.file selected.ebuild).requests at₀)

/-- Each member of the session is clean. -/
def SessionClean (self : Emerge) : Prop := ∀ sel ∈ self.resolveSession,
  ∃ selected, self.selected[sel]? = some selected ∧ selected.isDirty = false ∧ self.CleanAt sel selected

/-- The members of the session other than `z` are not dirty, and no object is that
is not clean. -/
structure Settling (s : Emerge) (z : Option Nat) : Prop where
  members : ∀ sel ∈ s.resolveSession, z ≠ some sel →
    ∃ selected, s.selected[sel]? = some selected ∧ selected.isDirty = false
  clean : ∀ (sel : Nat) (selected : SelectedEbuild), s.selected[sel]? = some selected →
    selected.isDirty = false → s.CleanAt sel selected

theorem CleanAt.congr {s t : Emerge} (hcache : t.cache = s.cache) {sel : Nat}
    {selected selected' : SelectedEbuild} (hcore : selected.core = selected'.core)
    (h : s.CleanAt sel selected) : t.CleanAt sel selected' := by
  have hflags : selected.core.flags = selected'.core.flags := by rw [hcore]
  have hhooks : selected.core.globalFlagHooks = selected'.core.globalFlagHooks := by rw [hcore]
  have hebuild : selected.core.ebuild = selected'.core.ebuild := by rw [hcore]
  have hgen : selected.core.generators = selected'.core.generators := by rw [hcore]
  have hfile : t.file selected'.ebuild = s.file selected.ebuild := by
    rw [file, file, hcache, show selected.ebuild = selected'.ebuild from hebuild]
  refine ⟨hflags.symm.trans h.flags, hhooks.symm.trans (h.hook.trans (by rw [hfile])), ?_⟩
  obtain ⟨s', hans⟩ := h.generators
  exact ⟨s', hgen.symm.trans (hans.trans (by rw [hfile]))⟩

theorem Settling.sessionClean {self : Emerge} (h : self.Settling none) : self.SessionClean := by
  intro sel hmem
  obtain ⟨selected, hs, hdirty⟩ := h.members sel hmem (by simp)
  exact ⟨selected, hs, hdirty, h.clean sel selected hs hdirty⟩

/-- The object is there and dirty. -/
def DirtyAt (self : Emerge) (sel : Nat) : Prop :=
  ∃ selected, self.selected[sel]? = some selected ∧ selected.isDirty = true

theorem HasFrame.dirtyAt {self : Emerge} {sel : Nat} {frame : SelectedEbuild}
    (h : self.HasFrame sel frame) (hdirty : frame.isDirty = true) : self.DirtyAt sel := by
  obtain ⟨selected, hs, rfl⟩ := h
  exact ⟨selected, hs, hdirty⟩

theorem DirtyAt.absurd {self : Emerge} {sel : Nat} (h : self.DirtyAt sel) {selected : SelectedEbuild}
    (hs : self.selected[sel]? = some selected) : selected.isDirty ≠ false := by
  obtain ⟨selected', hs', hdirty⟩ := h
  rw [Option.some.inj (hs.symm.trans hs'), hdirty]
  exact Bool.true_eq_false_eq_False

theorem Apart.settling {sel : Nat} {s t : Emerge} (h : Apart sel s t) (hs : s.Settling (some sel))
    (hdirty : t.DirtyAt sel) : t.Settling (some sel) where
  members y hy hne := by
    have hother := h.other y fun he => hne (congrArg some he.symm)
    rw [h.session] at hy
    rw [hother]
    exact hs.members y hy hne
  clean y selected ht hclean := by
    by_cases hne : y = sel
    · subst hne
      exact False.elim (hdirty.absurd ht hclean)
    · rw [h.other y hne] at ht
      exact (hs.clean y selected ht hclean).congr h.cache rfl

theorem Calm.dirtyAt {sel : Nat} {s t : Emerge} (h : Calm (some sel) s t) (hs : s.DirtyAt sel) :
    t.DirtyAt sel := by
  obtain ⟨selected, hs, hdirty⟩ := hs
  obtain ⟨selected', ht, he⟩ := h.own sel selected rfl hs
  exact ⟨selected', ht, SelectedEbuild.frame_isDirty he ▸ hdirty⟩

theorem Calm.settling {z : Option Nat} {s t : Emerge} (h : Calm z s t) (hs : s.Settling z)
    (hdirty : ∀ sel, z = some sel → s.DirtyAt sel) : t.Settling z where
  members y hy hne := by
    rw [h.session] at hy
    obtain ⟨selected, hsel, hclean⟩ := hs.members y hy hne
    obtain ⟨selected', ht, he | ⟨hnot, -⟩⟩ := h.old y selected hne hsel
    · exact ⟨selected', ht, SelectedEbuild.core_isDirty he ▸ hclean⟩
    · exact absurd hy hnot
  clean y selected' ht hclean := by
    cases hsel : s.selected[y]? with
    | none => exact absurd ((h.new y selected' hsel ht).symm.trans hclean) (by simp)
    | some selected =>
      by_cases hne : z = some y
      · subst hne
        exact False.elim ((h.dirtyAt (hdirty y rfl)).absurd ht hclean)
      · obtain ⟨other, ht', he⟩ := h.old y selected hne hsel
        obtain rfl := Option.some.inj (ht.symm.trans ht')
        rcases he with he | ⟨-, he⟩
        · exact (hs.clean y selected hsel (SelectedEbuild.core_isDirty he ▸ hclean)).congr h.cache he
        · exact absurd (he.symm.trans hclean) (by simp)

end Emerge

/-- What `refresh` does before it resolves the expressions, with the metadata it
comes to. -/
def refreshUse (sel : Nat) : Resolution Metadata := do
  modifySel sel fun s => { s with generators := .empty }
  let selected ← getSel sel
  loadMetadata selected.ebuild
  flushUse sel
  let self ← get
  hookRequiredUse sel (self.metadata selected.ebuild).requiredUse
  return self.metadata selected.ebuild

theorem refresh_split {sel : Nat} {s t : Emerge} (h : refresh selectAtom sel s = (.ok (), t)) :
    ∃ metadata u v, refreshUse sel s = (.ok metadata, u) ∧
      (DependencyContainer.indices.forM fun i =>
        resolveAll selectAtom (some sel) (appendGenerator sel i) (metadata.depTypes i)) u = (.ok (), v) ∧
      modifySel sel (fun s => { s with isDirty := false }) v = (.ok (), t) := by
  obtain ⟨_, s₁, hclear, hrest⟩ := bind_ok.mp h
  obtain ⟨selected, s₂, hget, hrest₂⟩ := bind_ok.mp hrest
  obtain ⟨_, s₃, hload, hrest₃⟩ := bind_ok.mp hrest₂
  obtain ⟨_, s₄, hflush, hrest₄⟩ := bind_ok.mp hrest₃
  obtain ⟨self, s₅, hself, hrest₅⟩ := bind_ok.mp hrest₄
  obtain ⟨_, s₆, hhook, hrest₆⟩ := bind_ok.mp hrest₅
  obtain ⟨_, s₇, hloop, hclean⟩ := bind_ok.mp hrest₆
  refine ⟨_, s₆, s₇, ?_, hloop, hclean⟩
  exact bind_ok.mpr ⟨_, s₁, hclear, bind_ok.mpr ⟨selected, s₂, hget, bind_ok.mpr ⟨_, s₃, hload,
    bind_ok.mpr ⟨_, s₄, hflush, bind_ok.mpr ⟨self, s₅, hself, bind_ok.mpr ⟨_, s₆, hhook,
      pure_ok.mpr ⟨rfl, rfl⟩⟩⟩⟩⟩⟩⟩

theorem loaded_apart (sel : Nat) (s : Emerge) (ebuild : Ebuild) : Apart sel s (s.loaded ebuild) ∧
    (s.loaded ebuild).selected = s.selected := by
  rw [loaded]
  split_ifs
  · exact ⟨⟨rfl, rfl, fun _ _ => rfl⟩, rfl⟩
  · exact ⟨⟨rfl, rfl, fun _ _ => rfl⟩, rfl⟩

theorem refreshUse_inv {sel : Nat} {s t : Emerge} {selected : SelectedEbuild} {metadata : Metadata}
    (hs : s.selected[sel]? = some selected) (h : refreshUse sel s = (.ok metadata, t)) :
    ∃ u, flushUse sel ((s.atSel sel SelectedEbuild.cleared).loaded selected.ebuild) = (.ok (), u) ∧
      metadata = u.metadata selected.ebuild ∧ hookRequiredUse sel metadata.requiredUse u = (.ok (), t) := by
  obtain ⟨_, s₁, hclear, hrest⟩ := bind_ok.mp h
  obtain ⟨selected₁, s₂, hget, hrest₂⟩ := bind_ok.mp hrest
  obtain ⟨_, s₃, hload, hrest₃⟩ := bind_ok.mp hrest₂
  obtain ⟨_, s₄, hflush, hrest₄⟩ := bind_ok.mp hrest₃
  obtain ⟨self, s₅, hself, hrest₅⟩ := bind_ok.mp hrest₄
  obtain ⟨_, s₆, hhook, hend⟩ := bind_ok.mp hrest₅
  obtain ⟨hs₁, rfl⟩ := getSel_ok.mp hget
  obtain ⟨rfl, rfl⟩ := get_ok.mp hself
  obtain ⟨rfl, rfl⟩ := pure_ok.mp hend
  obtain rfl := loadMetadata_ok hload
  obtain rfl : s.atSel sel SelectedEbuild.cleared = s₂ := congrArg Prod.snd hclear
  obtain rfl := Option.some.inj ((cleared_get hs).symm.trans hs₁)
  exact ⟨_, hflush, rfl, hhook⟩

theorem refreshUse_ok {sel : Nat} {s t : Emerge} {selected : SelectedEbuild} {metadata : Metadata}
    (hs : s.selected[sel]? = some selected) (hnil : selected.globalFlagHooks = [])
    (h : refreshUse sel s = (.ok metadata, t)) :
    Apart sel s t ∧ metadata = s.file selected.ebuild ∧ t.HasFrame sel { selected.frame with
      flags := []
      globalFlagHooks := requiredHooks metadata.requiredUse } := by
  obtain ⟨u, hflush, rfl, hhook⟩ := refreshUse_inv hs h
  have happart : Apart sel s (s.atSel sel SelectedEbuild.cleared) := modifySel_apart rfl
  obtain ⟨hloaded, hselected⟩ := loaded_apart sel (s.atSel sel SelectedEbuild.cleared) selected.ebuild
  have hflush' := (flushUse_useOnly sel).only.ok hflush
  have hhook' := (hookRequiredUse_useOnly sel _).only.ok hhook
  have hmeta : u.metadata selected.ebuild = s.file selected.ebuild := by
    rw [← hflush'.1.metadata, metadata_loaded, file, file, happart.cache]
  refine ⟨((happart.trans hloaded).trans hflush'.apart).trans hhook'.apart, hmeta, ?_⟩
  have hframe : ((s.atSel sel SelectedEbuild.cleared).loaded selected.ebuild).HasFrame sel selected.frame := by
    refine ⟨selected.cleared, ?_, rfl⟩
    rw [hselected]
    exact cleared_get hs
  have hflushed := flushUse_hasFrame hframe hnil hflush
  have hhooked := hookRequiredUse_hasFrame hflushed hnil hhook
  exact hhooked

/-- The object has never been refreshed with an expression, and resolving its own
expressions leaves the guarded objects. -/
def QuietRefresh (sel : Nat) (s : Emerge) : Prop :=
  (∀ selected, s.selected[sel]? = some selected → selected.globalFlagHooks = []) ∧
    ∀ metadata t, refreshUse sel s = (.ok metadata, t) →
      Along (fun i => resolveAll selectAtom (some sel) (appendGenerator sel i) (metadata.depTypes i))
        (fun i => QuietAll sel i (metadata.depTypes i)) DependencyContainer.indices t

instance decidableQuietRefresh (sel : Nat) (s : Emerge) : Decidable (QuietRefresh sel s) :=
  decidable_of_iff ((∀ selected ∈ s.selected[sel]?, selected.globalFlagHooks = []) ∧ _) Iff.rfl

theorem refresh_clean {sel : Nat} {s t : Emerge} {selected : SelectedEbuild}
    (hs : s.selected[sel]? = some selected) (hdirty : selected.isDirty = true)
    (hsettling : s.Settling (some sel)) (hquiet : QuietRefresh sel s)
    (h : refresh selectAtom sel s = (.ok (), t)) : t.Settling none := by
  obtain ⟨metadata, u, v, huse, hloop, hend⟩ := refresh_split h
  obtain ⟨hnil, halong⟩ := hquiet
  obtain ⟨happart, hmeta, hframe⟩ := refreshUse_ok hs (hnil selected hs) huse
  have hcalm : Calm (some sel) u v := by
    refine (halong metadata u huse).invariant ?_ (sameCore_refl u).calm hloop
    exact fun i _ s' t' hs' hq hrun => calm_trans hs' (resolveAll_calm hq hrun)
  have hu : u.Settling (some sel) := happart.settling hsettling (hframe.dirtyAt hdirty)
  have hv : v.Settling (some sel) := by
    refine hcalm.settling hu fun y hy => ?_
    rw [← Option.some.inj hy]
    exact hframe.dirtyAt hdirty
  have hend' := modifySel_apart hend
  have htframe : t.HasFrame sel { selected.frame with
      flags := []
      globalFlagHooks := requiredHooks metadata.requiredUse
      isDirty := false } := by
    refine modifySel_hasFrame ?_ (hcalm.hasFrame hframe) hend
    intro other hother
    exact congrArg (fun f : SelectedEbuild => { f with isDirty := false }) hother
  obtain ⟨selected', ht, hframe'⟩ := htframe
  obtain ⟨selected'', _, _, _, ht', hgen, rfl, -⟩ := refresh_generators hs h
  obtain rfl := Option.some.inj (ht.symm.trans ht')
  have hfield {α : Type} (f : SelectedEbuild → α) := congrArg f hframe'
  have hebuild : selected'.ebuild = selected.ebuild := hfield SelectedEbuild.ebuild
  have hfile : t.file selected'.ebuild = s.file selected.ebuild := by
    rw [hebuild, file, file, hend'.cache, hcalm.cache, happart.cache]
  have hcleanAt : t.CleanAt sel selected' :=
    ⟨hfield SelectedEbuild.flags, (hfield SelectedEbuild.globalFlagHooks).trans (by rw [hfile, hmeta]),
      _, hfile ▸ hgen⟩
  constructor
  · intro y hy _
    by_cases hne : y = sel
    · subst hne
      exact ⟨selected', ht, hfield SelectedEbuild.isDirty⟩
    · rw [hend'.other y hne]
      exact hv.members y (hend'.session ▸ hy) fun he => hne (Option.some.inj he).symm
  · intro y other hy hclean
    by_cases hne : y = sel
    · subst hne
      obtain rfl := Option.some.inj (ht.symm.trans hy)
      exact hcleanAt
    · rw [hend'.other y hne] at hy
      exact (hv.clean y other hy hclean).congr hend'.cache rfl

/-- The state in which `regenerate` is entered by `get_resolved`. -/
def Emerge.opened (self : Emerge) (sel : Nat) : Emerge :=
  { self with resolveSession := sel :: self.resolveSession }

/-- Along a call of `regenerate` and the calls below it. -/
def QuietRegenerate : Nat → Nat → Emerge → Prop
  | 0, _, _ => True
  | fuel + 1, sel, s =>
    (∀ selected, s.selected[sel]? = some selected → selected.isDirty = true → QuietRefresh sel s) ∧
      ∀ t u selected, refreshIfDirty selectAtom sel s = (.ok (), t) →
        modifySel sel (fun s => { s with resolvedDeps := .empty }) t = (.ok (), u) →
        u.selected[sel]? = some selected →
          Along (resolveGenerator (regenerate selectAtom fuel) sel)
            (fun p r => p.2.sel ∉ r.resolveSession → QuietRegenerate fuel p.2.sel (r.opened p.2.sel))
            selected.generators.entries u

instance decidableQuietRegenerate : (fuel sel : Nat) → (s : Emerge) → Decidable (QuietRegenerate fuel sel s)
  | 0, _, _ => isTrue trivial
  | fuel + 1, sel, s =>
    have : ∀ sel s, Decidable (QuietRegenerate fuel sel s) := decidableQuietRegenerate fuel
    decidable_of_iff ((∀ selected ∈ s.selected[sel]?, selected.isDirty = true → QuietRefresh sel s) ∧
      ∀ v t, refreshIfDirty selectAtom sel s = (.ok v, t) →
        ∀ w u, modifySel sel (fun s => { s with resolvedDeps := .empty }) t = (.ok w, u) →
          ∀ selected ∈ u.selected[sel]?,
            Along (resolveGenerator (regenerate selectAtom fuel) sel)
              (fun p r => p.2.sel ∉ r.resolveSession → QuietRegenerate fuel p.2.sel (r.opened p.2.sel))
              selected.generators.entries u)
      (and_congr_right' ⟨fun h t u selected ht hu => h ⟨⟩ t ht ⟨⟩ u hu selected,
        fun h _ t ht _ u hu selected => h t u selected ht hu⟩)

namespace Emerge

theorem SameCore.settling {s t : Emerge} (h : SameCore s t) (hs : s.Settling none) : t.Settling none :=
  h.calm.settling hs fun _ hz => absurd hz (by simp)

theorem Settling.opened {self : Emerge} (h : self.Settling none) (sel : Nat) :
    (self.opened sel).Settling (some sel) where
  members y hy hne := by
    rcases List.mem_cons.mp hy with rfl | hy
    · exact absurd rfl hne
    · exact h.members y hy (by simp)
  clean y selected hs hclean :=
    CleanAt.congr (s := self) (t := self.opened sel) rfl rfl (h.clean y selected hs hclean)

theorem Settling.ofNone {self : Emerge} (h : self.Settling none) (z : Option Nat) : self.Settling z :=
  ⟨fun y hy _ => h.members y hy (by simp), h.clean⟩

end Emerge

/-- One object is clean, if it was not before, and the others stay. -/
theorem refreshIfDirty_clean {sel : Nat} {s t : Emerge} (hsettling : s.Settling (some sel))
    (hquiet : ∀ selected, s.selected[sel]? = some selected → selected.isDirty = true → QuietRefresh sel s)
    (h : refreshIfDirty selectAtom sel s = (.ok (), t)) : t.Settling none := by
  obtain ⟨selected, u, hget, hrest⟩ := bind_ok.mp h
  obtain ⟨hs, rfl⟩ := getSel_ok.mp hget
  split_ifs at hrest with hdirty
  · exact refresh_clean hs hdirty hsettling (hquiet selected hs hdirty) hrest
  · obtain ⟨-, rfl⟩ := pure_ok.mp hrest
    refine ⟨fun y hy _ => ?_, hsettling.clean⟩
    by_cases hne : sel = y
    · subst hne
      exact ⟨selected, hs, Bool.eq_false_iff.mpr hdirty⟩
    · exact hsettling.members y hy fun he => hne (Option.some.inj he)

theorem getResolved_clean {regenerate : Nat → Resolution Unit} {sel : Nat} {s t : Emerge}
    (hregenerate : sel ∉ s.resolveSession → regenerate sel (s.opened sel) = (.ok (), t) → t.Settling none)
    (hs : s.Settling none) (h : getResolved regenerate sel s = (.ok (), t)) : t.Settling none := by
  by_cases hmem : sel ∈ s.resolveSession
  · rw [getResolved_of_mem _ hmem] at h
    obtain ⟨-, rfl⟩ := Prod.mk.inj h
    exact hs
  · rw [getResolved_of_notMem _ hmem] at h
    exact hregenerate hmem h

theorem regenerate_clean {fuel sel : Nat} {s t : Emerge} (hs : s.Settling (some sel))
    (hquiet : QuietRegenerate fuel sel s) (h : regenerate selectAtom fuel sel s = (.ok (), t)) :
    t.Settling none := by
  induction fuel generalizing sel s t with
  | zero => exact absurd h throw_ok
  | succ fuel ih =>
    obtain ⟨_, u, hrefresh, hrest⟩ := bind_ok.mp h
    obtain ⟨_, v, hclear, hrest₂⟩ := bind_ok.mp hrest
    obtain ⟨selected, w, hget, hloop⟩ := bind_ok.mp hrest₂
    obtain ⟨hsel, rfl⟩ := getSel_ok.mp hget
    have hu := refreshIfDirty_clean hs hquiet.1 hrefresh
    have hsame {p : Fin 4 × Generator} : Respects SameCore
        (modifySel sel fun s => { s with resolvedDeps := s.resolvedDeps.append p.1 p.2 }) :=
      modifySel_sameCore sel _ fun _ => rfl
    have hclear' : SameCore u w := by
      refine (modifySel_sameCore sel _ ?_).ok hclear
      exact fun _ => rfl
    let Settled (r : Emerge) : Prop := r.Settling none
    have hw : Settled w := hclear'.settling hu
    refine (hquiet.2 u w selected hrefresh hclear hsel).invariant ?_ hw hloop
    intro p _ r r' hr hq hturn
    obtain ⟨_, r'', hresolved, happend⟩ := bind_ok.mp hturn
    refine (hsame.ok happend).settling (getResolved_clean ?_ hr hresolved)
    exact fun hmem hrun => ih (hr.opened _) (hq hmem) hrun

namespace EmergeCall

def returned : Except Stop Unit × Emerge → Option Emerge
  | (.ok _, t) => some t
  | (.error _, _) => none

theorem returned_some {r : Except Stop Unit × Emerge} {t : Emerge} :
    returned r = some t ↔ r = (.ok (), t) := by
  obtain ⟨a | ⟨⟩, u⟩ := r
  · exact ⟨fun h => absurd h (by simp [returned]), fun h => absurd (Prod.mk.inj h).1 (by simp)⟩
  · exact ⟨fun h => by rw [Option.some.inj h], fun h => by rw [h]; rfl⟩

/-- The state after a call, where a call that resolves returns. -/
def next (s : Emerge) : EmergeCall → Option Emerge
  | addBlock atom => some (step search s (addBlock atom))
  | selectAtom parent atom => some (step search s (selectAtom parent atom))
  | changeWithinSlot sel atom => some (step search s (changeWithinSlot sel atom))
  | regenerate fuel sel => returned (perform search (regenerate fuel sel) s)
  | getResolved fuel sel => returned (perform search (getResolved fuel sel) s)

/-- No call changes the ebuild of an object in the session or sets a flag of one,
nor of the one it refreshes, and no object is refreshed for a second time. -/
def Quiet (s : Emerge) : EmergeCall → Prop
  | addBlock _ => True
  | selectAtom _ atom => s.Untouched none atom
  | changeWithinSlot sel atom => ∀ candidate, s.candidate sel = some candidate →
    s.Switches atom sel candidate → sel ∉ s.resolveSession
  | regenerate fuel sel => QuietRegenerate fuel sel s
  | getResolved fuel sel => sel ∉ s.resolveSession → QuietRegenerate fuel sel (s.opened sel)

instance decidableQuiet (s : Emerge) : (call : EmergeCall) → Decidable (Quiet s call)
  | addBlock _ => isTrue trivial
  | selectAtom _ atom => inferInstanceAs (Decidable (s.Untouched none atom))
  | changeWithinSlot sel atom => inferInstanceAs (Decidable (∀ candidate ∈ s.candidate sel,
      (s.Switches atom sel candidate → sel ∉ s.resolveSession)))
  | regenerate fuel sel => inferInstanceAs (Decidable (QuietRegenerate fuel sel s))
  | getResolved fuel sel =>
    inferInstanceAs (Decidable (sel ∉ s.resolveSession → QuietRegenerate fuel sel (s.opened sel)))

theorem drop_state {α : Type} (c : Resolution α) (s : Emerge) :
    ((do let _ ← c; return () : Resolution Unit) s).2 = (c s).2 := by
  rcases bind_run c (fun _ => (pure () : Resolution Unit)) s with ⟨a, t, hc, hb⟩ | ⟨e, t, hc, hb⟩
  · rw [hb, hc]
    rfl
  · rw [hb, hc]

theorem next_settling {s t : Emerge} {call : EmergeCall} (hs : s.Settling none) (hquiet : Quiet s call)
    (h : next s call = some t) : t.Settling none := by
  have hcalm {u : Emerge} (hu : Calm none s u) : u.Settling none :=
    hu.settling hs fun _ hz => absurd hz (by simp)
  cases call with
  | addBlock atom =>
    obtain rfl := Option.some.inj h
    exact hcalm (addBlock_sameCore atom s).calm
  | selectAtom parent atom =>
    obtain rfl := Option.some.inj h
    rw [step, perform, drop_state, show selectAtomOver search = AutoGentoo.selectAtom from rfl,
      ofCall_selectAtom]
    exact hcalm (selects_calm hquiet parent)
  | changeWithinSlot sel atom =>
    obtain rfl := Option.some.inj h
    rw [step, perform, drop_state,
      show changeWithinSlotOver search = AutoGentoo.changeWithinSlot from rfl]
    cases hc : s.candidate sel with
    | none =>
      rw [ofCall_changeWithinSlot_none atom hc]
      exact hs
    | some candidate =>
      rw [ofCall_changeWithinSlot_some atom hc]
      exact hcalm (switched_calm fun hsw => not_or.mpr ⟨hquiet candidate hc hsw, by simp⟩)
  | regenerate fuel sel => exact regenerate_clean (hs.ofNone _) hquiet (returned_some.mp h)
  | getResolved fuel sel =>
    refine getResolved_clean (fun hmem hrun => ?_) hs (returned_some.mp h)
    exact regenerate_clean (hs.opened sel) (hquiet hmem) hrun

end EmergeCall

/-- Where each call leaves the objects of the session, and no object is refreshed
twice, the session is clean after each. -/
theorem session_clean_of_quiet (portage : Portage) (globals : UseHeap) (cache : Nat → CacheFile)
    (read : List Nat) {t : Emerge}
    (h : Reaches EmergeCall.next EmergeCall.Quiet (Emerge.init portage globals cache read) t) :
    t.SessionClean := by
  have hinit : (Emerge.init portage globals cache read).Settling none := by
    refine ⟨fun sel hmem => absurd hmem (by simp [Emerge.init]), fun sel selected hs => ?_⟩
    exact absurd hs (by simp [Emerge.init])
  refine Settling.sessionClean ?_
  exact h.invariant (fun s => s.Settling none) hinit fun s call t hs hq hn =>
    EmergeCall.next_settling hs hq hn

/-- Files of this one content for all ebuilds of `app-misc/foo`. -/
def fooSession (file : Metadata) : Emerge :=
  Emerge.init SelectionRun.fooRepository UseHeap.init (fun _ => { fields := file, ok := true }) []

/-- `app-misc/foo` selected and resolved. -/
def fooCalls (fuel : Nat) : List EmergeCall :=
  [.selectAtom none (SelectionRun.fooRequest .all Package.foo10), .getResolved fuel 0]

/-- `app-misc/bar` and `app-misc/foo`. -/
def pairRepository : Portage :=
  let file (package : String) : RepoFile :=
    { category := "app-misc".toList
      nameAndVersion := (package ++ "-1.0").toList
      ebuildFound := true
      cacheFile := some ("cache/app-misc/" ++ package ++ "-1.0").toList }
  (Portage.init.initializeRepository [file "bar", file "foo"]).getD Portage.init

/-- An atom of one of them, in any version. -/
def pairAtom (package : String) (useflags : List AtomFlag) : Atom :=
  { fooAtom .all Package.foo10 with
    id := (Lut.lutGetId pairRepository.packages ("app-misc/" ++ package).toList).1
    name := package.toList
    key := ("app-misc/" ++ package).toList
    useflags := useflags }

/-- `f` in IUSE, on or not. -/
def pairFile (state : Bool) : Metadata :=
  { Metadata.blank with iuse := [(['f'], { name := ['f'], state := state })] }

/-- `[f]` -/
def pairFlag : AtomFlag := { name := ['f'], option := .enable, dflt := .none }

/-- The flags with `f`, and its id. -/
def pairUse : UseHeap × Nat := (UseHeap.init.useGetGlobal (some ['f'])).getD (UseHeap.init, 0)

def DependTree.ofAtom (atom : Atom) : DependTree := .node .disable 0 (some atom) .null .null

/-- `f` is on and in REQUIRED_USE. -/
def requiredFile : Metadata := { pairFile true with requiredUse := .node (some ['f']) .enable .null .null }

/-- `app-misc/bar` needs `app-misc/foo` with these flags, and once more, with `f` on, without. -/
def mutualBar (useflags : List AtomFlag) : Metadata :=
  { requiredFile with
    depend := .ofAtom (pairAtom "foo" useflags)
    pdepend := .node .enable pairUse.2 none (.ofAtom (pairAtom "foo" [])) .null }

/-- `app-misc/foo` needs `app-misc/bar` at run time. -/
def mutualFoo : Metadata := { requiredFile with rdepend := .ofAtom (pairAtom "bar" []) }

def mutualSession (useflags : List AtomFlag) : Emerge :=
  Emerge.init pairRepository pairUse.1
    (fun addr => { fields := if addr = 1 then mutualBar useflags else mutualFoo, ok := true }) []

theorem session_clean_of_quiet_mutual : ∃ t,
    run EmergeCall.next (mutualSession [pairFlag]) [.selectAtom none (pairAtom "bar" []), .getResolved 3 0] = some t ∧
      t.resolveSession = [1, 0] ∧ t.SessionClean := by
  have hrun : (run EmergeCall.next (mutualSession [pairFlag])
      [.selectAtom none (pairAtom "bar" []), .getResolved 3 0]).map Emerge.resolveSession = some [1, 0] := by
    decide +kernel
  obtain ⟨t, ht, hsession⟩ := Option.map_eq_some_iff.mp hrun
  exact ⟨t, ht, hsession, session_clean_of_quiet _ _ _ _ (Reaches.run .refl (by decide +kernel) ht)⟩

/-- The atoms that are selected there. -/
def mutualRequests (useflags : List AtomFlag) : List Atom :=
  [pairAtom "bar" [], pairAtom "foo" [], pairAtom "foo" useflags]

theorem mutualSession_portage (useflags : List AtomFlag) : (mutualSession useflags).portage = pairRepository := by
  simp only [mutualSession, Emerge.init]

theorem mutual_asks {useflags : List AtomFlag} {addr : Nat} {i : Fin 4} {atom : Atom}
    (h : atom ∈ (((mutualSession useflags).cache addr).fields.depTypes i).topAtoms) :
    atom ∈ mutualRequests useflags := by
  have hone (needed : Atom) (hblock : needed.blocks = .none) (h : atom ∈ (DependTree.ofAtom needed).topAtoms) :
      atom = needed := by
    simpa [DependTree.ofAtom, DependTree.topAtoms, requestedAtom, hblock] using h
  have hfile : atom ∈ ((if addr = 1 then mutualBar useflags else mutualFoo).depTypes i).topAtoms := h
  split_ifs at hfile
  · fin_cases i
    · exact absurd hfile List.not_mem_nil
    · simp [mutualRequests, hone (pairAtom "foo" useflags) rfl hfile]
    · exact absurd hfile List.not_mem_nil
    · exact absurd hfile List.not_mem_nil
  · fin_cases i
    · exact absurd hfile List.not_mem_nil
    · exact absurd hfile List.not_mem_nil
    · simp [mutualRequests, hone (pairAtom "bar" []) rfl hfile]
    · exact absurd hfile List.not_mem_nil

theorem mutual_found : ∀ useflags ∈ [[], [pairFlag]], ∀ a ∈ mutualRequests useflags, ∀ b ∈ mutualRequests useflags,
    a.key = b.key → ∃ ebuild, pairRepository.matchAtom a = some (.ok (some ebuild)) ∧
      ebuild.packageKey = a.key ∧ atomMatches b ebuild = some true := by
  have hfound : ∀ useflags ∈ [[], [pairFlag]], ∀ a ∈ mutualRequests useflags, ∀ b ∈ mutualRequests useflags,
      a.key = b.key → ((pairRepository.matchAtom a).bind fun found => found.toOption.join).any
        (fun ebuild => decide (ebuild.packageKey = a.key ∧ atomMatches b ebuild = some true)) = true := by
    decide +kernel
  intro useflags hflags a ha b hb hkey
  obtain ⟨ebuild, hsome, hmatches⟩ := (Option.any_eq_true _ _).mp (hfound useflags hflags a ha b hb hkey)
  obtain ⟨found, hfound, hjoin⟩ := Option.bind_eq_some_iff.mp hsome
  refine ⟨ebuild, ?_, of_decide_eq_true hmatches⟩
  rw [hfound]
  cases found with
  | error e => exact absurd hjoin (by simp [Except.toOption])
  | ok found =>
    simp only [Except.toOption, Option.join_some] at hjoin
    rw [hjoin]

/-- `app-misc/foo[a]` as a dependency of itself, with `a` on. -/
def selfFile : Metadata :=
  let foo := { SelectionRun.fooRequest .all Package.foo10 with
    useflags := [{ name := ['a'], option := .enable, dflt := .none }] }
  { Metadata.blank with
    depend := .node .disable 0 (some foo) .null .null
    iuse := [(['a'], { name := ['a'], state := true })] }

/-- The requirement waits in the queue of an object that is not dirty. -/
theorem self_requirement_waits : ¬ ∀ portage globals cache read calls t,
    run EmergeCall.next (Emerge.init portage globals cache read) calls = some t →
      t.SessionClean := by
  intro hall
  have hwaits : (run EmergeCall.next (fooSession selfFile) (fooCalls 2)).map
      (fun t => (t.resolveSession, t.selected.map SelectedEbuild.flags)) =
        some ([0], [[{ name := ['a'], state := true }]]) := by
    decide +kernel
  obtain ⟨t, ht, hfields⟩ := Option.map_eq_some_iff.mp hwaits
  obtain ⟨hsession, hflags⟩ := Prod.mk.inj hfields
  obtain ⟨selected, hs, -, hclean⟩ := hall _ _ _ _ _ t ht 0 (hsession ▸ List.mem_cons_self)
  have hget := congrArg (·[0]?) hflags
  simp only [List.getElem?_map, hs, Option.map_some] at hget
  have hempty := hclean.flags
  rw [Option.some.inj hget] at hempty
  exact absurd hempty (by simp)

end AutoGentoo
