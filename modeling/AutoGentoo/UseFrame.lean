import AutoGentoo.RegenerateClean

/-! The state of the flags of an object that has come into the session. While it
stays with its ebuild, no later call changes a flag it has. -/

namespace AutoGentoo

open StateExcept Emerge

namespace UseFlags

/-- The state `get_use` finds. -/
def stateOf (self : UseFlags) (name : List Char) : Option Bool :=
  ((Dict.get self.useflags name).or (Dict.get self.iuse name)).map UseFlag.state

theorem stateOf_of_getUse {self : UseFlags} {name : List Char} {use : UseFlag}
    (h : self.getUse (some name) = .ok use) : self.stateOf name = some use.state := by
  rw [getUse] at h
  rw [stateOf]
  cases hu : Dict.get self.useflags name with
  | some flag =>
    simp only [hu] at h
    simp [Except.ok.inj h]
  | none =>
    cases hi : Dict.get self.iuse name with
    | some flag =>
      simp only [hu, hi] at h
      simp [Except.ok.inj h]
    | none =>
      simp only [hu, hi] at h
      exact absurd h (by simp)

theorem getUse_of_stateOf {self : UseFlags} {name : List Char} {state : Bool} (h : self.stateOf name = some state) :
    ∃ use, self.getUse (some name) = .ok use ∧ use.state = state := by
  rw [stateOf] at h
  rw [getUse]
  cases hu : Dict.get self.useflags name with
  | some flag => exact ⟨flag, rfl, by simpa [hu] using h⟩
  | none =>
    rw [hu, Option.none_or] at h
    obtain ⟨flag, hi, hstate⟩ := Option.map_eq_some_iff.mp h
    exact ⟨flag, by simp only [hi], hstate⟩

theorem hasUse_iff {self : UseFlags} {name : List Char} :
    self.hasUse name = true ↔ self.stateOf name ≠ none := by
  rw [hasUse, stateOf, Dict.has, Dict.has]
  cases Dict.get self.useflags name <;> cases Dict.get self.iuse name <;> simp

end UseFlags

namespace Portage

/-- No ebuild is in two packages. -/
def Distinct (self : Portage) : Prop := ∀ p ∈ self.objects, ∀ q ∈ self.objects,
  ∀ a ∈ p.ebuilds, ∀ b ∈ q.ebuilds, a.addr = b.addr → p = q

/-- The ebuild that iterating the package of an ebuild comes to. -/
def candidateFor (self : Portage) (ebuild : Ebuild) : Option Ebuild :=
  (self.objects.find? fun p => p.ebuilds.any fun e => e.addr = ebuild.addr).bind fun package =>
    (Package.ebuildNext package.iter).head?

theorem Distinct.candidateFor {self : Portage} (h : self.Distinct) {ebuild other : Ebuild}
    (hc : self.candidateFor ebuild = some other) : self.candidateFor other = some other := by
  obtain ⟨package, hfind, hnext⟩ := Option.bind_eq_some_iff.mp hc
  have hmem : other ∈ package.ebuilds := by
    cases hp : package.ebuilds with
    | nil => simp [Package.iter, Package.ebuildNext, hp] at hnext
    | cons first rest =>
      rw [Package.iter, hp, Package.ebuildNext] at hnext
      exact List.mem_cons_of_mem _ (List.mem_of_head? hnext)
  have hpm := List.mem_of_find?_eq_some hfind
  refine Option.bind_eq_some_iff.mpr ⟨package, ?_, hnext⟩
  cases hf : self.objects.find? fun p => p.ebuilds.any fun e => e.addr = other.addr with
  | none =>
    have hnone := List.find?_eq_none.mp hf package hpm
    simp only [List.any_eq_true, decide_eq_true_eq, not_exists, not_and] at hnone
    exact absurd rfl (hnone other hmem)
  | some found =>
    have hany := List.find?_some hf
    simp only [List.any_eq_true, decide_eq_true_eq] at hany
    obtain ⟨b, hb, haddr⟩ := hany
    rw [h found (List.mem_of_find?_eq_some hf) package hpm b hb other hmem haddr]

end Portage

namespace Emerge

def useAt (self : Emerge) (x : Nat) : Option UseFlags :=
  (self.selected[x]?).map fun selected =>
    { useflags := selected.useflags, iuse := (self.metadata selected.ebuild).iuse }

def useState (self : Emerge) (x : Nat) (name : List Char) : Option Bool :=
  (self.useAt x).bind fun flags => flags.stateOf name

def ebuildAt (self : Emerge) (x : Nat) : Option Ebuild :=
  (self.selected[x]?).map SelectedEbuild.ebuild

theorem candidate_eq (self : Emerge) (x : Nat) :
    self.candidate x = (self.ebuildAt x).bind self.portage.candidateFor := by
  rw [candidate, ebuildAt]
  cases self.selected[x]? <;> rfl

/-- An object of the session that has gone over to another ebuild and stays there. -/
def Away (self : Emerge) (e : Ebuild) (x : Nat) : Prop :=
  x ∈ self.resolveSession ∧ ∃ other, other ≠ e ∧ self.ebuildAt x = some other ∧
    self.candidate x = some other

/-- An object of the session with ebuild `e` keeps its flags, unless it leaves `e`
for good. -/
structure KeepsUse (e : Ebuild) (x : Nat) (s t : Emerge) : Prop where
  session : x ∈ s.resolveSession → x ∈ t.resolveSession
  portage : x ∈ s.resolveSession → t.portage = s.portage
  away : s.portage.Distinct → s.Away e x → t.Away e x
  holds : s.portage.Distinct → x ∈ s.resolveSession → s.ebuildAt x = some e →
    t.Away e x ∨ (t.ebuildAt x = some e ∧
      ∀ name v, s.useState x name = some v → t.useState x name = some v)

theorem keepsUse_refl {e : Ebuild} {x : Nat} (s : Emerge) : KeepsUse e x s s :=
  ⟨id, fun _ => rfl, fun _ h => h, fun _ _ he => .inr ⟨he, fun _ _ h => h⟩⟩

theorem keepsUse_trans {e : Ebuild} {x : Nat} (s t r : Emerge) (h : KeepsUse e x s t)
    (h' : KeepsUse e x t r) : KeepsUse e x s r := by
  refine ⟨fun hx => h'.session (h.session hx), fun hx => (h'.portage (h.session hx)).trans (h.portage hx),
    fun hd ha => ?_, fun hd hx he => ?_⟩
  · exact h'.away (h.portage ha.1 ▸ hd) (h.away hd ha)
  · have hd' : t.portage.Distinct := h.portage hx ▸ hd
    rcases h.holds hd hx he with ha | ⟨he', hv⟩
    · exact .inl (h'.away hd' ha)
    · rcases h'.holds hd' (h.session hx) he' with ha | ⟨he'', hv'⟩
      · exact .inl ha
      · exact .inr ⟨he'', fun name v hs => hv' name v (hv name v hs)⟩

theorem keepsUse_of_notMem {e : Ebuild} {x : Nat} {s : Emerge} (h : x ∉ s.resolveSession) (t : Emerge) :
    KeepsUse e x s t :=
  ⟨fun hx => absurd hx h, fun hx => absurd hx h, fun _ ha => absurd ha.1 h, fun _ hx => absurd hx h⟩

/-- What a call may do to an object besides: load metadata and grow the session. -/
structure Around (s t : Emerge) : Prop where
  portage : t.portage = s.portage
  cache : t.cache = s.cache
  read : s.read ⊆ t.read
  session : s.resolveSession ⊆ t.resolveSession

theorem Around.trans {s t r : Emerge} (h : Around s t) (h' : Around t r) : Around s r :=
  ⟨h'.portage.trans h.portage, h'.cache.trans h.cache, List.Subset.trans h.read h'.read,
    List.Subset.trans h.session h'.session⟩

theorem Around.metadata {s t : Emerge} (h : Around s t) {ebuild : Ebuild} {name : List Char}
    {flag : UseFlag} (hf : Dict.get (s.metadata ebuild).iuse name = some flag) :
    Dict.get (t.metadata ebuild).iuse name = some flag := by
  have hs : ebuild.addr ∈ s.read := by
    by_contra hn
    rw [Emerge.metadata, if_neg hn] at hf
    exact absurd hf (by simp [Metadata.blank])
  rw [Emerge.metadata, if_pos hs] at hf
  rw [Emerge.metadata, if_pos (h.read hs), h.cache]
  exact hf

theorem Around.useState {s t : Emerge} (h : Around s t) {x : Nat}
    (hentry : ∀ selected, s.selected[x]? = some selected → ∃ selected', t.selected[x]? = some selected' ∧
      selected'.ebuild = selected.ebuild ∧ selected'.useflags = selected.useflags)
    {name : List Char} {v : Bool} (hv : s.useState x name = some v) : t.useState x name = some v := by
  obtain ⟨flags, huse, hstate⟩ := Option.bind_eq_some_iff.mp hv
  obtain ⟨selected, hs, rfl⟩ := Option.map_eq_some_iff.mp huse
  obtain ⟨selected', ht, hsame, huses⟩ := hentry selected hs
  rw [Emerge.useState, useAt, ht, Option.map_some, Option.bind_some]
  rw [UseFlags.stateOf] at hstate ⊢
  simp only [huses, hsame]
  cases hu : Dict.get selected.useflags name with
  | some flag => simpa [hu] using hstate
  | none =>
    rw [hu, Option.none_or] at hstate
    obtain ⟨flag, hi, hfs⟩ := Option.map_eq_some_iff.mp hstate
    rw [h.metadata hi]
    simp [hfs]

theorem Around.keepsUse {s t : Emerge} (h : Around s t) {x : Nat} (e : Ebuild)
    (hentry : ∀ selected, s.selected[x]? = some selected → ∃ selected', t.selected[x]? = some selected' ∧
      selected'.ebuild = selected.ebuild ∧ selected'.useflags = selected.useflags) :
    KeepsUse e x s t := by
  have hebuild : ∀ other, s.ebuildAt x = some other → t.ebuildAt x = some other := by
    intro other he
    obtain ⟨selected, hs, rfl⟩ := Option.map_eq_some_iff.mp he
    obtain ⟨selected', ht, hsame, -⟩ := hentry selected hs
    rw [ebuildAt, ht, Option.map_some, hsame]
  refine ⟨fun hx => h.session hx, fun _ => h.portage, fun _ => ?_,
    fun _ hx he => .inr ⟨hebuild e he, fun _ _ hv => h.useState hentry hv⟩⟩
  rintro ⟨hx, other, hne, he, hc⟩
  refine ⟨h.session hx, other, hne, hebuild other he, ?_⟩
  rw [candidate_eq, he] at hc
  rwa [candidate_eq, hebuild other he, h.portage]

theorem Around.keepsUse_same {s t : Emerge} (h : Around s t) {x : Nat} (e : Ebuild)
    (hentry : t.selected[x]? = s.selected[x]?) : KeepsUse e x s t :=
  h.keepsUse e fun selected hs => ⟨selected, hentry.trans hs, rfl, rfl⟩

theorem SameButUse.around {s t : Emerge} (h : SameButUse s t) : Around s t where
  portage := by
    have hp : s.settled.portage = t.settled.portage := by rw [h]
    exact hp.symm
  cache := h.cache
  read := by
    have hr : s.settled.read = t.settled.read := by rw [h]
    exact (show s.read = t.read from hr) ▸ List.Subset.refl _
  session := h.resolveSession ▸ List.Subset.refl _

theorem SameButUse.ebuildAt {s t : Emerge} (h : SameButUse s t) (x : Nat) :
    t.ebuildAt x = s.ebuildAt x := by
  have hs : ∀ e : Emerge, e.ebuildAt x = e.settled.ebuildAt x := by
    intro e
    simp only [Emerge.ebuildAt, settled, List.getElem?_map, Option.map_map]
    rfl
  rw [hs s, hs t, h]

theorem OnlyUseOf.keepsUse {s t : Emerge} {sel x : Nat} (h : OnlyUseOf sel s t) (hne : x ≠ sel)
    (e : Ebuild) : KeepsUse e x s t :=
  h.1.around.keepsUse_same e (h.2 x hne)

/-- The ebuild of an object and the flags changed since. -/
def flagsView (self : Emerge) : List (Ebuild × Dict (List Char) UseFlag) :=
  self.selected.map fun selected => (selected.ebuild, selected.useflags)

/-- Only hooks, queues and blocks differ, and what is dirty. -/
def SameFlags (s t : Emerge) : Prop := SameButUse s t ∧ t.flagsView = s.flagsView

theorem sameFlags_refl (s : Emerge) : SameFlags s s := ⟨rfl, rfl⟩

theorem sameFlags_trans (s t r : Emerge) (h : SameFlags s t) (h' : SameFlags t r) : SameFlags s r :=
  ⟨h.1.trans h'.1, h'.2.trans h.2⟩

theorem SameFlags.entry {s t : Emerge} (h : SameFlags s t) {x : Nat} {selected : SelectedEbuild}
    (hs : s.selected[x]? = some selected) : ∃ selected', t.selected[x]? = some selected' ∧
      selected'.ebuild = selected.ebuild ∧ selected'.useflags = selected.useflags := by
  have hview := congrArg (·[x]?) h.2
  simp only [flagsView, List.getElem?_map, hs, Option.map_some] at hview
  obtain ⟨selected', ht, he⟩ := Option.map_eq_some_iff.mp hview
  obtain ⟨he, hu⟩ := Prod.mk.inj he
  exact ⟨selected', ht, he, hu⟩

theorem SameFlags.keepsUse {s t : Emerge} (h : SameFlags s t) (e : Ebuild) (x : Nat) :
    KeepsUse e x s t := h.1.around.keepsUse e fun _ hs => h.entry hs

theorem SameFlags.useAt {s t : Emerge} (h : SameFlags s t) (x : Nat) : t.useAt x = s.useAt x := by
  have hview := congrArg (·[x]?) h.2
  simp only [flagsView, List.getElem?_map] at hview
  rw [Emerge.useAt, Emerge.useAt]
  cases hs : s.selected[x]? with
  | none =>
    rw [hs, Option.map_none, Option.map_eq_none_iff] at hview
    rw [hview]
    rfl
  | some selected =>
    obtain ⟨selected', ht, he, hu⟩ := h.entry hs
    rw [ht, Option.map_some, Option.map_some, he, hu, h.1.metadata]

theorem SameFlags.useState {s t : Emerge} (h : SameFlags s t) (x : Nat) (name : List Char) :
    t.useState x name = s.useState x name := by
  rw [Emerge.useState, Emerge.useState, h.useAt]

end Emerge

theorem modifySel_sameFlags (sel : Nat) (f : SelectedEbuild → SelectedEbuild)
    (hf : ∀ s, (f s).settled = s.settled) (huse : ∀ s, (f s).useflags = s.useflags) :
    Respects SameFlags (modifySel sel f) := by
  intro s
  refine ⟨(modifySel_useOnly sel f hf).same s, map_modify_of_eq (fun selected => ?_) _ _⟩
  have he : (f selected).settled.ebuild = selected.settled.ebuild := by rw [hf]
  exact Prod.ext he (huse selected)

theorem sameFlags_bind {α β : Type} {c : Resolution α} {f : α → Resolution β}
    (hc : Respects SameFlags c) (hf : ∀ a, Respects SameFlags (f a)) :
    Respects SameFlags (c >>= f) := hc.bind sameFlags_trans hf

theorem sameFlags_pure {α : Type} (a : α) : Respects SameFlags (pure a : Resolution α) :=
  respects_pure sameFlags_refl a

theorem getSel_sameFlags (sel : Nat) : Respects SameFlags (getSel sel) :=
  fun s => (getSel_state sel s).symm ▸ sameFlags_refl s

theorem raising_sameFlags {α : Type} (r : Except PyError α) : Respects SameFlags (raising r) := by
  cases r with
  | ok a => exact sameFlags_pure a
  | error e => exact respects_throw sameFlags_refl _

theorem useFlags_sameFlags (sel : Nat) : Respects SameFlags (useFlags sel) :=
  sameFlags_bind (getSel_sameFlags sel) fun _ =>
    sameFlags_bind (respects_get sameFlags_refl) fun _ => sameFlags_pure _

theorem setHooks_useflags (s : SelectedEbuild) (name : Option (List Char)) (hooks : List Hookable) :
    (s.setHooks name hooks).useflags = s.useflags := by
  cases name <;> rfl

theorem runHookAt_sameFlags (sel : Nat) (name : Option (List Char)) (arg : Option Bool) (i : Nat) :
    Respects SameFlags (runHookAt sel name arg i) := by
  refine sameFlags_bind (useFlags_sameFlags sel) fun flags => ?_
  refine sameFlags_bind (getSel_sameFlags sel) fun selected => ?_
  split
  · exact sameFlags_pure _
  · exact sameFlags_bind (raising_sameFlags _) fun hook =>
      modifySel_sameFlags sel _ (fun s => setHooks_settled s _ _) fun s => setHooks_useflags s _ _

theorem runHooks_sameFlags (sel : Nat) (name : Option (List Char)) (arg : Option Bool) :
    Respects SameFlags (runHooks sel name arg) :=
  sameFlags_bind (getSel_sameFlags sel) fun _ =>
    respects_forM sameFlags_refl sameFlags_trans fun i _ => runHookAt_sameFlags sel name arg i

theorem hookArg_sameFlags (sel : Nat) (name : Option (List Char)) :
    Respects SameFlags (hookArg sel name) := by
  cases name with
  | none => exact sameFlags_pure _
  | some name =>
    exact sameFlags_bind (useFlags_sameFlags sel) fun _ =>
      sameFlags_bind (raising_sameFlags _) fun _ => sameFlags_pure _

theorem addUseHook_sameFlags (sel : Nat) (useflag : Option UseFlag) (hook : Hookable) :
    Respects SameFlags (addUseHook sel useflag hook) := by
  refine sameFlags_bind (getSel_sameFlags sel) fun selected => ?_
  refine sameFlags_bind (modifySel_sameFlags sel _ (fun s => setHooks_settled s _ _)
    fun s => setHooks_useflags s _ _) fun _ => ?_
  exact sameFlags_bind (hookArg_sameFlags sel _) fun arg => runHookAt_sameFlags sel _ arg _

theorem newUseSelection_sameFlags (sel : Nat) (useFlag : UseFlag) (flag : AtomUse) :
    Respects SameFlags (newUseSelection sel useFlag flag) := by
  have hschedule : ∀ useflag, Respects SameFlags (scheduleUse sel useflag) := fun _ =>
    modifySel_sameFlags sel _ (fun _ => rfl) fun _ => rfl
  cases flag with
  | enable | disable | opposite => exact sameFlags_bind (hschedule _) fun _ => sameFlags_pure _
  | disableIfOff | enableIfOn | equal => exact sameFlags_pure _

theorem addUseRequirement_sameFlags (sel : Nat) (name : List Char) (flag : AtomUse) :
    Respects SameFlags (addUseRequirement sel name flag) := by
  refine sameFlags_bind (useFlags_sameFlags sel) fun flags => ?_
  refine sameFlags_bind (raising_sameFlags _) fun use => ?_
  exact sameFlags_bind (newUseSelection_sameFlags sel use flag) fun hook =>
    addUseHook_sameFlags sel _ hook

theorem addUse_keepsUse {sel : Nat} {name : List Char} {s : Emerge} (h : s.useState sel name = none)
    (value : Bool) (e : Ebuild) : KeepsUse e sel s (addUse sel name value s).2 := by
  have haround : Around s (addUse sel name value s).2 :=
    ((addUse_useOnly sel name value).same s).around
  have hself : (addUse sel name value s).2.selected[sel]? = (s.selected[sel]?).map fun selected =>
      { selected with
        useflags := Dict.set selected.useflags name { name := name, state := value } } :=
    modifySel_self sel _ s
  have hebuild : (addUse sel name value s).2.ebuildAt sel = s.ebuildAt sel := by
    rw [ebuildAt, ebuildAt, hself, Option.map_map]
    rfl
  refine ⟨id, fun _ => haround.portage, fun _ ha => ?_,
    fun _ _ he => .inr ⟨hebuild.trans he, ?_⟩⟩
  · obtain ⟨hx, other, hne, he, hc⟩ := ha
    refine ⟨hx, other, hne, hebuild.trans he, ?_⟩
    rw [candidate_eq] at hc ⊢
    rwa [hebuild]
  · intro other v hv
    obtain ⟨flags, huse, hstate⟩ := Option.bind_eq_some_iff.mp hv
    obtain ⟨selected, hs, rfl⟩ := Option.map_eq_some_iff.mp huse
    have hne : name ≠ other := by
      rintro rfl
      exact absurd (hv.symm.trans h) (by simp)
    rw [useState, useAt, hself, hs, Option.map_some, Option.map_some, Option.bind_some]
    rw [UseFlags.stateOf] at hstate ⊢
    rw [Dict.get_set, if_neg hne]
    exact hstate

theorem requireUse_keepsUse (e : Ebuild) (x sel : Nat) (use : AtomFlag) :
    Respects (KeepsUse e x) (requireUse sel use) := by
  by_cases hne : x = sel
  · subst hne
    intro s
    rcases bind_run (useFlags x) (fun flags => if flags.hasUse use.name then
      addUseRequirement x use.name use.option else _) s with ⟨flags, t, hflags, hrun⟩ | ⟨stop, t, hflags, hrun⟩
    · obtain ⟨rfl, selected, hs, hfl⟩ := useFlags_ok hflags
      rw [requireUse, hrun]
      by_cases hhas : flags.hasUse use.name = true
      · rw [if_pos hhas]
        exact (addUseRequirement_sameFlags x _ _ t).keepsUse e x
      · rw [if_neg hhas]
        have hnone : t.useState x use.name = none := by
          rw [UseFlags.hasUse_iff, not_not] at hhas
          rw [useState, useAt, hs, Option.map_some, Option.bind_some, ← hfl, hhas]
        have hadd : ∀ value flag, KeepsUse e x t
            ((do addUse x use.name value; addUseRequirement x use.name flag : Resolution Unit) t).2 := by
          intro value flag
          have hfirst := addUse_keepsUse hnone value e
          exact keepsUse_trans _ _ _ hfirst ((addUseRequirement_sameFlags x use.name flag _).keepsUse e x)
        cases hd : use.defaultMember with
        | none => exact keepsUse_refl t
        | some dflt =>
          cases dflt with
          | none => exact keepsUse_refl t
          | on | off => exact hadd _ _
    · rw [requireUse, hrun]
      have hsame := useFlags_sameFlags x s
      rw [hflags] at hsame
      exact SameFlags.keepsUse hsame e x
  · exact fun s => ((requireUse_useOnly sel use).only s).keepsUse hne e

namespace Emerge

theorem changed_keepsUse {self : Emerge} {x : Nat} {selected : SelectedEbuild} {candidate : Ebuild}
    (hs : self.selected[x]? = some selected) (hc : self.candidate x = some candidate) (e : Ebuild) :
    KeepsUse e x self (self.changed x selected candidate) := by
  have hlt := (List.getElem?_eq_some_iff.mp hs).1
  have hself : (self.changed x selected candidate).selected[x]? =
      some { selected with ebuild := candidate, isDirty := true } := List.getElem?_set_self hlt
  have hebuild : (self.changed x selected candidate).ebuildAt x = some candidate := by
    rw [ebuildAt, hself]
    rfl
  have hgone : self.portage.Distinct → x ∈ self.resolveSession → candidate ≠ e →
      (self.changed x selected candidate).Away e x := by
    intro hd hx hne
    refine ⟨hx, candidate, hne, hebuild, ?_⟩
    rw [candidate_eq] at hc
    obtain ⟨other, -, hfor⟩ := Option.bind_eq_some_iff.mp hc
    rw [candidate_eq, hebuild, Option.bind_some]
    exact hd.candidateFor hfor
  refine ⟨id, fun _ => rfl, fun hd ⟨hx, other, hne, _, ho⟩ => ?_, fun hd hx he => ?_⟩
  · obtain rfl := Option.some.inj (hc.symm.trans ho)
    exact hgone hd hx hne
  · by_cases hne : candidate = e
    · refine .inr ⟨hne ▸ hebuild, fun name v hv => ?_⟩
      have hown : selected.ebuild = candidate := by
        rw [ebuildAt, hs, Option.map_some, Option.some.injEq] at he
        exact he.trans hne.symm
      rw [useState, useAt, hs, Option.map_some, hown] at hv
      rw [useState, useAt, hself, Option.map_some]
      exact hv
    · exact .inl (hgone hd hx hne)

theorem selects_keepsUse (self : Emerge) (parent : Option Nat) (atom : Atom) (e : Ebuild) (x : Nat) :
    KeepsUse e x self (self.selects parent atom) := by
  rw [selects]
  split
  · next key pkg ebuild _ =>
    have haround : Around self (self.created key pkg parent atom ebuild) :=
      ⟨rfl, rfl, List.Subset.refl _, List.Subset.refl _⟩
    refine haround.keepsUse e fun selected hs => ⟨selected, ?_, rfl, rfl⟩
    exact (List.getElem?_append_left (List.getElem?_eq_some_iff.mp hs).1).trans hs
  · next sel candidate hway =>
    rcases switched_cases self atom sel candidate with ⟨selected, hs, -, he⟩ | ⟨-, he⟩
    · rw [he]
      by_cases hne : x = sel
      · subst hne
        exact changed_keepsUse hs (candidate_of_changes (changes_iff.mpr hway)) e
      · have haround : Around self (self.changed sel selected candidate) :=
          ⟨rfl, rfl, List.Subset.refl _, List.Subset.refl _⟩
        exact haround.keepsUse_same e (List.getElem?_set_ne (Ne.symm hne))
    · rw [he]
      exact keepsUse_refl self
  · exact keepsUse_refl self

end Emerge

theorem ofCall_keepsUse (e : Ebuild) (x : Nat) (parent : Option Nat) (atom : Atom) :
    Respects (KeepsUse e x) (ofCall (selectAtom parent atom)) := by
  intro s
  rcases selectAtom_selects s parent atom with ⟨r, hr⟩ | ⟨⟨stop, he⟩, -⟩
  · rw [ofCall, hr]
    exact selects_keepsUse s parent atom e x
  · rw [ofCall, he]
    exact keepsUse_refl s

section Calls

variable {e : Ebuild} {x : Nat}

theorem keepsUse_bind {α β : Type} {c : Resolution α} {f : α → Resolution β}
    (hc : Respects (KeepsUse e x) c) (hf : ∀ a, Respects (KeepsUse e x) (f a)) :
    Respects (KeepsUse e x) (c >>= f) := hc.bind keepsUse_trans hf

theorem keepsUse_pure {α : Type} (a : α) : Respects (KeepsUse e x) (pure a : Resolution α) :=
  respects_pure keepsUse_refl a

theorem UseOnly.keepsUse {sel : Nat} {α : Type} {c : Resolution α} (h : UseOnly sel c)
    (hne : x ≠ sel) : Respects (KeepsUse e x) c := fun s => (h.only s).keepsUse hne e

theorem keepsUse_of_sameFlags {α : Type} {c : Resolution α} (h : Respects SameFlags c) :
    Respects (KeepsUse e x) c := fun s => (h s).keepsUse e x

theorem modifySel_keepsUse (sel : Nat) {f : SelectedEbuild → SelectedEbuild}
    (hebuild : ∀ s, (f s).ebuild = s.ebuild) (huse : ∀ s, (f s).useflags = s.useflags) :
    Respects (KeepsUse e x) (modifySel sel f) := by
  intro s
  have haround : Around s (modifySel sel f s).2 :=
    ⟨rfl, rfl, List.Subset.refl _, List.Subset.refl _⟩
  refine haround.keepsUse e fun selected hs => ?_
  by_cases hne : sel = x
  · subst hne
    exact ⟨f selected, by rw [modifySel_self, hs, Option.map_some], hebuild selected, huse selected⟩
  · exact ⟨selected, (modifySel_ne hne f s).trans hs, rfl, rfl⟩

theorem addBlock_sameFlags (atom : Atom) : Respects SameFlags (addBlock atom) := fun _ => ⟨rfl, rfl⟩

theorem resolveCondition_keepsUse (parent : Nat) (useOperator : UseOperator) (useCondition : Nat)
    (children : DependTree) :
    Respects (KeepsUse e x) (resolveCondition parent useOperator useCondition children) := by
  refine keepsUse_of_sameFlags (sameFlags_bind (respects_get sameFlags_refl) fun self => ?_)
  split_ifs
  · exact sameFlags_pure _
  · exact respects_throw sameFlags_refl _
  · cases self.getUseFlag useCondition <;> exact respects_throw sameFlags_refl _
  · cases self.getUseFlag useCondition with
    | none => exact respects_throw sameFlags_refl _
    | some flag => exact addUseHook_sameFlags parent _ _

theorem resolveAtom_keepsUse (parent : Option Nat) (atom : Atom) :
    Respects (KeepsUse e x) (resolveAtom selectAtom parent atom) := by
  refine keepsUse_bind (ofCall_keepsUse e x parent atom) fun found => ?_
  cases found with
  | none =>
    simp only
    split_ifs
    · exact keepsUse_pure _
    · exact respects_throw keepsUse_refl _
  | some sel =>
    refine keepsUse_bind ?_ fun _ => keepsUse_pure _
    exact respects_forM keepsUse_refl keepsUse_trans fun use _ => requireUse_keepsUse e x sel use

theorem resolveSingle_keepsUse (parent : Option Nat) (useOperator : UseOperator) (useCondition : Nat)
    (atom : Option Atom) (children : DependTree) :
    Respects (KeepsUse e x) (resolveSingle selectAtom parent useOperator useCondition atom children) := by
  cases atom with
  | some atom =>
    simp only [resolveSingle]
    split_ifs
    · exact keepsUse_bind (keepsUse_of_sameFlags (addBlock_sameFlags atom)) fun _ => keepsUse_pure _
    · exact resolveAtom_keepsUse parent atom
  | none =>
    cases parent with
    | none => exact respects_throw keepsUse_refl _
    | some parent =>
      exact keepsUse_bind (resolveCondition_keepsUse parent _ _ _) fun _ => keepsUse_pure _

theorem resolveAll_keepsUse (sel : Nat) (i : Fin 4) (expression : DependTree) :
    Respects (KeepsUse e x)
      (resolveAll selectAtom (some sel) (appendGenerator sel i) expression) := by
  induction expression with
  | null => exact keepsUse_pure _
  | node useOperator useCondition atom children next _ ih =>
    refine keepsUse_bind (resolveSingle_keepsUse _ _ _ _ _) fun resolved => ?_
    refine keepsUse_bind ?_ fun _ => ih
    cases resolved with
    | none => exact keepsUse_pure _
    | some dep => exact modifySel_keepsUse sel (fun _ => rfl) fun _ => rfl

theorem loadMetadata_keepsUse (ebuild : Ebuild) :
    Respects (KeepsUse e x) (loadMetadata ebuild) := by
  refine keepsUse_bind (respects_get keepsUse_refl) fun self => ?_
  split_ifs
  · exact keepsUse_pure _
  · intro s
    have haround : Around s (s.readMetadata ebuild) :=
      ⟨rfl, rfl, List.subset_cons_self _ _, List.Subset.refl _⟩
    exact haround.keepsUse_same e rfl

theorem resolveExpressions_keepsUse (sel : Nat) (metadata : Metadata) :
    Respects (KeepsUse e x) (DependencyContainer.indices.forM fun i =>
      resolveAll selectAtom (some sel) (appendGenerator sel i) (metadata.depTypes i)) :=
  respects_forM keepsUse_refl keepsUse_trans fun i _ => resolveAll_keepsUse sel i _

theorem refresh_keepsUse {sel : Nat} (hne : x ≠ sel) :
    Respects (KeepsUse e x) (refresh selectAtom sel) := by
  refine keepsUse_bind (modifySel_keepsUse sel (fun _ => rfl) fun _ => rfl) fun _ => ?_
  refine keepsUse_bind ((getSel_useOnly sel sel).keepsUse hne) fun selected => ?_
  refine keepsUse_bind (loadMetadata_keepsUse _) fun _ => ?_
  refine keepsUse_bind ((flushUse_useOnly sel).keepsUse hne) fun _ => ?_
  refine keepsUse_bind (respects_get keepsUse_refl) fun self => ?_
  refine keepsUse_bind ((hookRequiredUse_useOnly sel _).keepsUse hne) fun _ => ?_
  refine keepsUse_bind (resolveExpressions_keepsUse sel _) fun _ => ?_
  exact modifySel_keepsUse sel (fun _ => rfl) fun _ => rfl

/-- The last loop of `regenerate`, given what the calls below it do. -/
theorem resolveGenerators_keepsUse {regenerate : Nat → Resolution Unit}
    (h : ∀ y, x ≠ y → Respects (KeepsUse e x) (regenerate y)) (sel : Nat)
    (entries : List (Fin 4 × Generator)) :
    Respects (KeepsUse e x) (entries.forM (resolveGenerator regenerate sel)) := by
  refine respects_forM keepsUse_refl keepsUse_trans fun p _ => ?_
  refine keepsUse_bind (fun s => ?_) fun _ => modifySel_keepsUse sel (fun _ => rfl) fun _ => rfl
  by_cases hs : p.2.sel ∈ s.resolveSession
  · rw [getResolved_of_mem regenerate hs]
    exact keepsUse_refl s
  · rw [getResolved_of_notMem regenerate hs]
    by_cases hne : x = p.2.sel
    · exact keepsUse_of_notMem (hne ▸ hs) _
    · have haround : Around s { s with resolveSession := p.2.sel :: s.resolveSession } :=
        ⟨rfl, rfl, List.Subset.refl _, List.subset_cons_self _ _⟩
      exact keepsUse_trans _ _ _ (haround.keepsUse_same e rfl) (h p.2.sel hne _)

theorem regenerate_keepsUse (fuel : Nat) {sel : Nat} (hne : x ≠ sel) :
    Respects (KeepsUse e x) (regenerate selectAtom fuel sel) := by
  induction fuel generalizing sel with
  | zero => exact respects_throw keepsUse_refl _
  | succ fuel ih =>
    refine keepsUse_bind ?_ fun _ => ?_
    · refine keepsUse_bind ((getSel_useOnly sel sel).keepsUse hne) fun selected => ?_
      split_ifs
      · exact refresh_keepsUse hne
      · exact keepsUse_pure _
    refine keepsUse_bind (modifySel_keepsUse sel (fun _ => rfl) fun _ => rfl) fun _ => ?_
    refine keepsUse_bind ((getSel_useOnly sel sel).keepsUse hne) fun selected => ?_
    exact resolveGenerators_keepsUse (fun y hy => ih hy) sel _

end Calls

end AutoGentoo
