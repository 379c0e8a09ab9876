import AutoGentoo.UseQueue

/-! Calls of `add_use_requirement` with ENABLE or DISABLE, and `regenerate` behind them. Each call
runs its hook at once, while the state it has scheduled still waits in the queue. -/

namespace AutoGentoo

open StateExcept Emerge

/-- ENABLE or DISABLE of a flag. -/
structure UseDemand where
  name : List Char
  value : Bool
  deriving DecidableEq, Repr

namespace UseDemand

def option (self : UseDemand) : AtomUse := if self.value then .enable else .disable

/-- What is scheduled for it. -/
def useFlag (self : UseDemand) : UseFlag := { name := self.name, state := self.value }

/-- The hook that the call puts in, with the flag it has found. -/
def hookOn (self : UseDemand) (use : UseFlag) : Hookable :=
  .useSelection use self.option self.value true

/-- The hook of a flag that has the state already. -/
def hook (self : UseDemand) : Hookable := self.hookOn self.useFlag

/-- Two requirements demand opposite values of a flag. -/
def Opposed (demands : List UseDemand) : Prop :=
  ∃ d ∈ demands, ∃ d' ∈ demands, d.name = d'.name ∧ d.value ≠ d'.value

end UseDemand

/-- The calls, then `regenerate()`. -/
def requireThenRegenerate (select : Select) (fuel sel : Nat) (demands : List UseDemand) :
    Resolution Unit := do
  demands.forM fun d => addUseRequirement sel d.name d.option
  regenerate select fuel sel

namespace SelectedEbuild

def enqueue (self : SelectedEbuild) (queue : List UseFlag) : SelectedEbuild :=
  { self with flags := self.flags ++ queue }

def schedule (self : SelectedEbuild) (useflag : UseFlag) : SelectedEbuild :=
  { self.enqueue [useflag] with isDirty := true }

def addHook (self : SelectedEbuild) (name : List Char) (hook : Hookable) : SelectedEbuild :=
  self.setHooks (some name) (self.hooks (some name) ++ [hook])

/-- With the hook of a requirement, and nothing scheduled for it. -/
def guard (self : SelectedEbuild) (d : UseDemand) : SelectedEbuild :=
  { self.addHook d.name d.hook with isDirty := true }

theorem enqueue_nil (self : SelectedEbuild) : self.enqueue [] = self := by
  simp [enqueue]

theorem enqueue_enqueue (self : SelectedEbuild) (queue queue' : List UseFlag) :
    (self.enqueue queue).enqueue queue' = self.enqueue (queue ++ queue') := by
  simp [enqueue]

end SelectedEbuild

namespace Emerge

/-- All hooks of the requirements, and nothing scheduled. -/
def guarded (self : Emerge) (sel : Nat) (demands : List UseDemand) : Emerge :=
  self.atSel sel fun selected => demands.foldl SelectedEbuild.guard selected

def enqueued (self : Emerge) (sel : Nat) (queue : List UseFlag) : Emerge :=
  self.atSel sel fun selected => selected.enqueue queue

theorem enqueued_nil (self : Emerge) (sel : Nat) : self.enqueued sel [] = self := by
  have hsame : self.enqueued sel [] = self.atSel sel id := by
    rw [enqueued]
    congr 1
    funext selected
    exact selected.enqueue_nil
  rw [hsame, atSel_id]

/-- Every flag has the demanded state already. -/
def Current (self : Emerge) (sel : Nat) (demands : List UseDemand) : Prop :=
  ∀ d ∈ demands, self.useState sel d.name = some d.value

/-- `regenerate` with nothing scheduled for the requirements: no exception about the flags comes from
elsewhere, and the flags stay. -/
structure Undisturbed (emerge : Emerge) (select : Select) (fuel sel : Nat) (demands : List UseDemand) :
    Prop where
  quiet : ¬ ∃ suggestion, (regenerate select fuel sel (emerge.guarded sel demands)).1 =
    .error (.raised (.requiredUse suggestion))
  stays : (regenerate select fuel sel (emerge.guarded sel demands)).2.Current sel demands

/-- What the calls with `regenerate` behind them are to do. -/
structure Honoured (emerge : Emerge) (select : Select) (fuel sel : Nat) (demands : List UseDemand) :
    Prop where
  raises : (∃ suggestion, (requireThenRegenerate select fuel sel demands emerge).1 =
    .error (.raised (.requiredUse suggestion))) ↔ UseDemand.Opposed demands
  ends : ¬ UseDemand.Opposed demands →
    (requireThenRegenerate select fuel sel demands emerge).2.Current sel demands

end Emerge

/-! ### One call -/

section Call

variable {sel : Nat} {d : UseDemand} {s : Emerge} {state : Bool}

theorem Emerge.HasUse.find (h : s.HasUse sel d.name) (hv : s.useState sel d.name = some state) :
    ∃ selected, s.selected[sel]? = some selected ∧
      UseFlags.getUse { useflags := selected.useflags, iuse := (s.metadata selected.ebuild).iuse }
        (some d.name) = .ok { name := d.name, state := state } := by
  obtain ⟨flags, use, hat, hget, hname⟩ := h
  rw [useState, hat, Option.bind_some, UseFlags.stateOf_of_getUse hget] at hv
  obtain ⟨selected, hs, rfl⟩ := Option.map_eq_some_iff.mp hat
  refine ⟨selected, hs, ?_⟩
  rw [hget, ← hname, ← Option.some.inj hv]

theorem newUseSelection_demand (sel : Nat) (d : UseDemand) (use : UseFlag) (hname : use.name = d.name)
    (s : Emerge) : newUseSelection sel use d.option s =
      (.ok (d.hookOn use), s.atSel sel fun x => x.schedule d.useFlag) := by
  rcases d with ⟨name, value⟩
  subst hname
  cases value <;> rfl

theorem SelectedEbuild.hooks_addHook (self : SelectedEbuild) (name : List Char) (hook : Hookable) :
    (self.addHook name hook).hooks (some name) = self.hooks (some name) ++ [hook] := by
  rw [addHook, hooks_setHooks, if_pos rfl]

theorem SelectedEbuild.addHook_set (self : SelectedEbuild) (name : List Char) (hook : Hookable) :
    (self.addHook name hook).setHooks (some name)
        (((self.addHook name hook).hooks (some name)).set (self.hooks (some name)).length hook) =
      self.addHook name hook := by
  rw [hooks_addHook, List.set_append_right _ _ (le_refl _), Nat.sub_self, List.set_cons_zero]
  have hset : Dict.set (self.addHook name hook).useFlagHooks name (self.hooks (some name) ++ [hook]) =
      (self.addHook name hook).useFlagHooks := Dict.set_of_get (Dict.get_set_self _ _ _)
  show ({ self.addHook name hook with
    useFlagHooks := Dict.set (self.addHook name hook).useFlagHooks name
      (self.hooks (some name) ++ [hook]) } : SelectedEbuild) = _
  rw [hset]

theorem addUseHook_last {use : UseFlag} {hook : Hookable} {selected : SelectedEbuild}
    (hs : s.selected[sel]? = some selected)
    (hget : UseFlags.getUse { useflags := selected.useflags, iuse := (s.metadata selected.ebuild).iuse }
      (some use.name) = .ok use) :
    addUseHook sel (some use) hook s = runHookAt sel (some use.name) (some use.state)
      (selected.hooks (some use.name)).length (s.atSel sel fun x => x.addHook use.name hook) := by
  have hadded : (s.atSel sel fun x => x.addHook use.name hook).selected[sel]? =
      some (selected.addHook use.name hook) := by
    rw [atSel_self, hs]
    rfl
  have harg : hookArg sel (some use.name) (s.atSel sel fun x => x.addHook use.name hook) =
      (.ok (some use.state), s.atSel sel fun x => x.addHook use.name hook) := by
    apply (bind_of_ok _ (useFlags_of_get hadded)).trans
    exact (bind_of_ok _ (raising_ok.mpr ⟨hget, rfl⟩)).trans rfl
  have hadd : modifySel sel (fun x => x.addHook use.name hook) s =
      (.ok (), s.atSel sel fun x => x.addHook use.name hook) := rfl
  apply (bind_of_ok _ (getSel_ok.mpr ⟨hs, rfl⟩)).trans
  apply (bind_of_ok _ hadd).trans
  exact bind_of_ok _ harg

theorem UseDemand.runHook_hookOn (d : UseDemand) (use : UseFlag) (flags : UseFlags) (v : Bool) :
    (d.hookOn use).runHook flags (some v) =
      if v = d.value then .ok (d.hookOn use) else .error (.requiredUse (.use (some use.name) d.value)) := by
  by_cases hv : v = d.value
  · simp [hookOn, Hookable.runHook, hv]
  · simp [hookOn, Hookable.runHook, hv]

theorem addUseHook_demand {use : UseFlag} {selected : SelectedEbuild} (hs : s.selected[sel]? = some selected)
    (hget : UseFlags.getUse { useflags := selected.useflags, iuse := (s.metadata selected.ebuild).iuse }
      (some use.name) = .ok use) :
    addUseHook sel (some use) (d.hookOn use) s =
      if use.state = d.value then (.ok (), s.atSel sel fun x => x.addHook use.name (d.hookOn use))
      else (.error (.raised (.requiredUse (.use (some use.name) d.value))),
        s.atSel sel fun x => x.addHook use.name (d.hookOn use)) := by
  rw [addUseHook_last hs hget]
  have hadded : (s.atSel sel fun x => x.addHook use.name (d.hookOn use)).selected[sel]? =
      some (selected.addHook use.name (d.hookOn use)) := by
    rw [atSel_self, hs]
    rfl
  have hlast : ((selected.addHook use.name (d.hookOn use)).hooks (some use.name))[
      (selected.hooks (some use.name)).length]? = some (d.hookOn use) := by
    rw [SelectedEbuild.hooks_addHook]
    simp
  apply (bind_of_ok _ (useFlags_of_get hadded)).trans
  apply (bind_of_ok _ (getSel_ok.mpr ⟨hadded, rfl⟩)).trans
  simp only [hlast]
  rw [d.runHook_hookOn]
  by_cases hstate : use.state = d.value
  · rw [if_pos hstate, if_pos hstate]
    apply (bind_of_ok _ (raising_ok.mpr ⟨rfl, rfl⟩)).trans
    show (Except.ok (), Emerge.atSel _ sel _) = _
    rw [atSel_atSel]
    refine congrArg _ (atSel_congr hs ?_)
    exact SelectedEbuild.addHook_set selected use.name _
  · rw [if_neg hstate, if_neg hstate]
    exact bind_of_error _ rfl

/-- A call does its work if the flag has the demanded state, and raises if it has the other one. -/
theorem addUseRequirement_demand (hhas : s.HasUse sel d.name) (hv : s.useState sel d.name = some state) :
    if state = d.value then
      addUseRequirement sel d.name d.option s = (.ok (), (s.guarded sel [d]).enqueued sel [d.useFlag])
    else ∃ suggestion t, addUseRequirement sel d.name d.option s =
      (.error (.raised (.requiredUse suggestion)), t) := by
  obtain ⟨selected, hs, hget⟩ := hhas.find hv
  have hqueued : (s.atSel sel fun x => x.schedule d.useFlag).selected[sel]? =
      some (selected.schedule d.useFlag) := by
    rw [atSel_self, hs]
    rfl
  have hcall : addUseRequirement sel d.name d.option s =
      addUseHook sel (some { name := d.name, state := state }) (d.hookOn { name := d.name, state := state })
        (s.atSel sel fun x => x.schedule d.useFlag) := by
    apply (bind_of_ok _ (useFlags_of_get hs)).trans
    apply (bind_of_ok _ (raising_ok.mpr ⟨hget, rfl⟩)).trans
    exact bind_of_ok _ (newUseSelection_demand sel d { name := d.name, state := state } rfl s)
  have hadd : addUseHook sel (some { name := d.name, state := state })
      (d.hookOn { name := d.name, state := state }) (s.atSel sel fun x => x.schedule d.useFlag) = _ :=
    addUseHook_demand hqueued hget
  rw [hcall, hadd]
  by_cases hstate : state = d.value
  · rw [if_pos hstate, if_pos hstate, hstate, guarded, enqueued, atSel_atSel, atSel_atSel]
    rfl
  · rw [if_neg hstate, if_neg hstate]
    exact ⟨_, _, rfl⟩

end Call

/-! ### All calls -/

theorem foldl_guard_enqueue (selected : SelectedEbuild) (queue : List UseFlag) (demands : List UseDemand) :
    demands.foldl SelectedEbuild.guard (selected.enqueue queue) =
      (demands.foldl SelectedEbuild.guard selected).enqueue queue := by
  induction demands generalizing selected with
  | nil => rfl
  | cons d demands ih => exact ih (selected.guard d)

section Calls

variable {sel : Nat} {demands : List UseDemand} {s : Emerge}

theorem demands_current (hhas : ∀ d ∈ demands, s.HasUse sel d.name) (hcurrent : s.Current sel demands) :
    demands.forM (fun d => addUseRequirement sel d.name d.option) s =
      (.ok (), (s.guarded sel demands).enqueued sel (demands.map UseDemand.useFlag)) := by
  induction demands generalizing s with
  | nil =>
    have hid : s.guarded sel [] = s := atSel_id s sel
    rw [List.map_nil, enqueued_nil, hid]
    rfl
  | cons d demands ih =>
    obtain ⟨hd, hall⟩ := List.forall_mem_cons.mp hhas
    obtain ⟨hv, hvs⟩ := List.forall_mem_cons.mp hcurrent
    have hcall := addUseRequirement_demand hd hv
    rw [if_pos rfl] at hcall
    have hsame := (addUseRequirement_sameFlags sel d.name d.option).ok hcall
    apply (bind_of_ok _ hcall).trans
    have hafter : ((s.guarded sel [d]).enqueued sel [d.useFlag]).Current sel demands := fun e he =>
      (hsame.useState sel e.name).trans (hvs e he)
    rw [ih (fun e he => (hall e he).sameFlags hsame) hafter]
    congr 1
    simp only [guarded, enqueued, atSel_atSel]
    congr 1
    funext x
    show ((demands.foldl SelectedEbuild.guard ((x.guard d).enqueue [d.useFlag])).enqueue _) = _
    rw [foldl_guard_enqueue, SelectedEbuild.enqueue_enqueue]
    rfl

theorem demands_raise (hhas : ∀ d ∈ demands, s.HasUse sel d.name) (hcurrent : ¬ s.Current sel demands) :
    ∃ suggestion t, demands.forM (fun d => addUseRequirement sel d.name d.option) s =
      (.error (.raised (.requiredUse suggestion)), t) := by
  induction demands generalizing s with
  | nil => exact absurd (fun d hd => absurd hd List.not_mem_nil) hcurrent
  | cons d demands ih =>
    obtain ⟨hd, hall⟩ := List.forall_mem_cons.mp hhas
    have hcall := addUseRequirement_demand hd hd.isOn
    by_cases hstate : s.isOn sel d.name = d.value
    · rw [if_pos hstate] at hcall
      have hsame := (addUseRequirement_sameFlags sel d.name d.option).ok hcall
      have hrest : ¬ ((s.guarded sel [d]).enqueued sel [d.useFlag]).Current sel demands := by
        intro hvs
        apply hcurrent
        refine List.forall_mem_cons.mpr ⟨hstate ▸ hd.isOn, fun e he => ?_⟩
        exact (hsame.useState sel e.name).symm.trans (hvs e he)
      obtain ⟨suggestion, t, hloop⟩ := ih (fun e he => (hall e he).sameFlags hsame) hrest
      exact ⟨suggestion, t, (bind_of_ok _ hcall).trans hloop⟩
    · rw [if_neg hstate] at hcall
      obtain ⟨suggestion, t, hcall⟩ := hcall
      exact ⟨suggestion, t, bind_of_error _ hcall⟩

theorem Emerge.Current.not_opposed (h : s.Current sel demands) : ¬ UseDemand.Opposed demands := by
  rintro ⟨d, hd, d', hd', hname, hne⟩
  have hv := h d hd
  rw [hname, h d' hd'] at hv
  exact hne (Option.some.inj hv).symm

end Calls

/-! ### All calls with `regenerate` -/

theorem SelectedEbuild.hook_guard (self : SelectedEbuild) (d e : UseDemand) {name : List Char}
    (h : e.hook ∈ self.hooks (some name)) : e.hook ∈ (self.guard d).hooks (some name) := by
  show e.hook ∈ (self.addHook d.name d.hook).hooks (some name)
  rw [addHook, hooks_setHooks]
  split_ifs with hname
  · obtain rfl := Option.some.inj hname
    exact List.mem_append_left _ h
  · exact h

theorem SelectedEbuild.hook_foldl_guard (self : SelectedEbuild) (demands : List UseDemand) (e : UseDemand)
    (h : e ∈ demands ∨ e.hook ∈ self.hooks (some e.name)) :
    e.hook ∈ (demands.foldl guard self).hooks (some e.name) := by
  induction demands generalizing self with
  | nil => simpa using h
  | cons d demands ih =>
    apply ih
    rcases h with h | h
    · rcases List.mem_cons.mp h with rfl | h
      · right
        show e.hook ∈ (self.addHook e.name e.hook).hooks (some e.name)
        rw [hooks_addHook]
        simp
      · exact .inl h
    · exact .inr (self.hook_guard d e h)

theorem SelectedEbuild.foldl_guard_dirty (self : SelectedEbuild) {demands : List UseDemand}
    (h : demands ≠ [] ∨ self.isDirty = true) : (demands.foldl guard self).isDirty = true := by
  induction demands generalizing self with
  | nil => simpa using h
  | cons d demands ih => exact ih (self.guard d) (.inr rfl)

theorem SelectedEbuild.foldl_guard_same (self : SelectedEbuild) (demands : List UseDemand) :
    (demands.foldl guard self).ebuild = self.ebuild ∧
      (demands.foldl guard self).useflags = self.useflags ∧
      (demands.foldl guard self).flags = self.flags ∧
      (demands.foldl guard self).generators = self.generators := by
  induction demands generalizing self with
  | nil => exact ⟨rfl, rfl, rfl, rfl⟩
  | cons d demands ih => exact ih (self.guard d)

section Regenerate

variable {select : Select} {fuel sel : Nat} {demands : List UseDemand} {s : Emerge}

theorem guarded_useState (s : Emerge) (demands : List UseDemand) (name : List Char) :
    (s.guarded sel demands).useState sel name = s.useState sel name := by
  rw [useState, useState, useAt, useAt, guarded, atSel_self]
  cases s.selected[sel]? with
  | none => rfl
  | some selected =>
    obtain ⟨hebuild, huses, -⟩ := selected.foldl_guard_same demands
    simp only [Option.map_some, hebuild, huses]
    rfl

theorem requireThenRegenerate_agree (hhas : ∀ d ∈ demands, s.HasUse sel d.name)
    (hcurrent : s.Current sel demands) : Agree sel (regenerate select fuel sel (s.guarded sel demands))
      (requireThenRegenerate select fuel sel demands s) := by
  have hrun : requireThenRegenerate select fuel sel demands s = regenerate select fuel sel
      ((s.guarded sel demands).enqueued sel (demands.map UseDemand.useFlag)) :=
    bind_of_ok _ (demands_current hhas hcurrent)
  rw [hrun]
  by_cases hnil : demands = []
  · have hmap : demands.map UseDemand.useFlag = [] := by rw [hnil, List.map_nil]
    rw [hmap, enqueued_nil]
    exact .inl rfl
  · obtain ⟨d, hd⟩ := List.exists_mem_of_ne_nil demands hnil
    obtain ⟨selected, hs, -⟩ := (hhas d hd).find (hcurrent d hd)
    have hguarded : (s.guarded sel demands).selected[sel]? =
        some (demands.foldl SelectedEbuild.guard selected) := by
      rw [guarded, atSel_self, hs]
      rfl
    have hqueue : (s.guarded sel demands).enqueued sel (demands.map UseDemand.useFlag) =
        (s.guarded sel demands).withQueue sel ((demands.foldl SelectedEbuild.guard selected).flags ++
          demands.map UseDemand.useFlag) := atSel_congr hguarded rfl
    rw [hqueue]
    apply regenerate_agree select fuel hguarded (selected.foldl_guard_dirty (.inl hnil))
    refine ⟨fun u hu => ?_, fun u hu => ?_⟩
    · obtain ⟨e, he, rfl⟩ := List.mem_map.mp hu
      rw [locks_of_get hguarded]
      exact List.mem_map.mpr ⟨e.hook, selected.hook_foldl_guard demands e (.inl he), rfl⟩
    · obtain ⟨e, he, rfl⟩ := List.mem_map.mp hu
      exact (guarded_useState s demands e.name).trans (hcurrent e he)

theorem honoured_iff_current (hhas : ∀ d ∈ demands, s.HasUse sel d.name) :
    s.Honoured select fuel sel demands ↔ UseDemand.Opposed demands ∨
      (s.Current sel demands ∧ s.Undisturbed select fuel sel demands) := by
  by_cases hcurrent : s.Current sel demands
  · have hopposed := hcurrent.not_opposed
    have hagree : Agree sel (regenerate select fuel sel (s.guarded sel demands)) _ :=
      requireThenRegenerate_agree hhas hcurrent
    rw [or_iff_right hopposed, and_iff_right hcurrent]
    constructor
    · intro h
      refine ⟨fun hraised => hopposed (h.raises.mp (hagree.fst ▸ hraised)), fun d hd => ?_⟩
      rw [hagree.useState]
      exact h.ends hopposed d hd
    · intro h
      refine ⟨iff_of_false (fun hraised => h.quiet (hagree.fst ▸ hraised)) hopposed, fun _ d hd => ?_⟩
      rw [← hagree.useState]
      exact h.stays d hd
  · obtain ⟨suggestion, t, hloop⟩ := demands_raise hhas hcurrent
    have hrun : requireThenRegenerate select fuel sel demands s =
        (.error (.raised (.requiredUse suggestion)), t) := bind_of_error _ hloop
    rw [or_iff_left fun h => hcurrent h.1]
    constructor
    · intro h
      exact h.raises.mp ⟨suggestion, by rw [hrun]⟩
    · intro h
      exact ⟨iff_of_true ⟨suggestion, by rw [hrun]⟩ h, fun hnot => absurd h hnot⟩

end Regenerate

/-! ### Without dependencies -/

/-- A call that raises nothing about the flags and leaves the flags of an object as they are. -/
structure Silent (sel : Nat) {α : Type} (c : Resolution α) (s : Emerge) : Prop where
  quiet : ¬ ∃ suggestion, (c s).1 = .error (.raised (.requiredUse suggestion))
  stays : ∀ name v, s.useState sel name = some v → (c s).2.useState sel name = some v

section Silent

variable {sel : Nat} {α β : Type} {s : Emerge}

theorem silent_of_ok {c : Resolution α} {a : α} (h : c s = (.ok a, s)) : Silent sel c s := by
  refine ⟨?_, ?_⟩
  · rintro ⟨suggestion, he⟩
    exact absurd ((congrArg Prod.fst h).symm.trans he) (by simp)
  · intro name v hv
    rw [h]
    exact hv

theorem Silent.bind {c : Resolution α} {f : α → Resolution β} (hc : Silent sel c s)
    (hf : ∀ a t, c s = (.ok a, t) → Silent sel (f a) t) : Silent sel (c >>= f) s := by
  rcases bind_run c f s with ⟨a, t, ha, hb⟩ | ⟨e, t, he, hb⟩
  · have hrest := hf a t ha
    refine ⟨fun ⟨suggestion, h⟩ => hrest.quiet ⟨suggestion, hb ▸ h⟩, fun name v hv => ?_⟩
    rw [hb]
    apply hrest.stays
    have hstays := hc.stays name v hv
    rwa [ha] at hstays
  · refine ⟨fun ⟨suggestion, h⟩ => hc.quiet ⟨suggestion, ?_⟩, fun name v hv => ?_⟩
    · rw [hb] at h
      rw [he]
      exact congrArg Except.error (Except.error.inj h)
    · rw [hb]
      have hstays := hc.stays name v hv
      rwa [he] at hstays

theorem silent_modifySel {f : SelectedEbuild → SelectedEbuild}
    (hebuild : ∀ x, (f x).ebuild = x.ebuild) (huses : ∀ x, (f x).useflags = x.useflags) :
    Silent sel (modifySel sel f) s := by
  refine ⟨fun ⟨_, h⟩ => absurd (show Except.ok () = _ from h) (by simp), fun name v hv => ?_⟩
  rw [← hv, useState, useState, useAt, useAt, modifySel_self]
  cases s.selected[sel]? with
  | none => rfl
  | some selected =>
    simp only [Option.map_some, hebuild, huses]
    rfl

theorem silent_loadMetadata (ebuild : Ebuild) : Silent sel (loadMetadata ebuild) s := by
  have hstate : ∀ name v, s.useState sel name = some v →
      (s.readMetadata ebuild).useState sel name = some v := by
    intro name v hv
    have haround : Around s (s.readMetadata ebuild) :=
      ⟨rfl, rfl, List.subset_cons_self _ _, List.Subset.refl _⟩
    apply haround.useState _ hv
    exact fun selected hs => ⟨selected, hs, rfl, rfl⟩
  have hrun : loadMetadata ebuild s =
      (if s.metadataInit ebuild then pure () else initializeMetadata ebuild : Resolution Unit) s := rfl
  refine ⟨?_, ?_⟩
  · rintro ⟨suggestion, h⟩
    rw [hrun] at h
    split_ifs at h
    · exact absurd (show Except.ok () = _ from h) (by simp)
    · rw [initializeMetadata] at h
      split_ifs at h
      simp at h
  · intro name v hv
    rw [hrun]
    split_ifs
    · exact hv
    · exact hstate name v hv

end Silent

/-- The flags have the states that are queued for them, nothing is resolved, and the ebuild has
neither dependencies nor REQUIRED_USE. -/
structure Emerge.Alone (emerge : Emerge) (sel : Nat) (selected : SelectedEbuild) : Prop where
  entry : emerge.selected[sel]? = some selected
  queue : ∀ q ∈ selected.flags, emerge.useState sel q.name = some q.state
  generators : selected.generators = .empty
  requiredUse : (emerge.file selected.ebuild).requiredUse = .null
  depTypes : ∀ i, (emerge.file selected.ebuild).depTypes i = .null

section Alone

variable {select : Select} {sel : Nat} {selected : SelectedEbuild} {s : Emerge}

theorem finishRefresh_alone {t : Emerge} {ebuild : Ebuild} (hreq : (t.metadata ebuild).requiredUse = .null)
    (hdeps : ∀ i, (t.metadata ebuild).depTypes i = .null) :
    finishRefresh select sel ebuild t = modifySel sel (fun x => { x with isDirty := false }) t := by
  apply (bind_of_ok _ (get_ok.mpr ⟨rfl, rfl⟩)).trans
  have hhook : hookRequiredUse sel (t.metadata ebuild).requiredUse t = (.ok (), t) := by
    rw [hookRequiredUse, if_pos hreq]
    rfl
  have hall : (fun i => resolveAll select (some sel) (appendGenerator sel i)
      ((t.metadata ebuild).depTypes i)) = fun _ => pure () := by
    funext i
    rw [hdeps]
    rfl
  apply (bind_of_ok _ hhook).trans
  rw [hall]
  rfl

theorem flushOne_settled {q : UseFlag} (hq : s.useState sel q.name = some q.state) :
    ∃ t, flushOne sel q s = (.ok (), t) := by
  let popped : Emerge := (modifySel sel (fun x => { x with flags := x.flags.tail }) s).2
  have hsame : SameFlags s popped := by
    apply modifySel_sameFlags
    · exact fun _ => rfl
    · exact fun _ => rfl
  obtain ⟨flags, hat, hstate⟩ := Option.bind_eq_some_iff.mp ((hsame.useState sel q.name).trans hq)
  obtain ⟨selected, hs, rfl⟩ := Option.map_eq_some_iff.mp hat
  obtain ⟨use, hget, huse⟩ := UseFlags.getUse_of_stateOf hstate
  have hpop : modifySel sel (fun x => { x with flags := x.flags.tail }) s = (.ok (), popped) := rfl
  refine ⟨popped, (bind_of_ok _ hpop).trans ?_⟩
  apply (bind_of_ok _ (useFlags_of_get hs)).trans
  apply (bind_of_ok _ (raising_ok.mpr ⟨hget, rfl⟩)).trans
  rw [if_pos huse]
  rfl

/-- A queue that changes no flag is gone through without running a hook. -/
theorem flushUse_settled (hs : s.selected[sel]? = some selected)
    (hqueue : ∀ q ∈ selected.flags, s.useState sel q.name = some q.state) :
    ∃ t, flushUse sel s = (.ok (), t) ∧ ∀ name, t.useState sel name = s.useState sel name := by
  have hloop : ∀ (l : List UseFlag) (r : Emerge), (∀ q ∈ l, r.useState sel q.name = some q.state) →
      ∃ t, l.forM (flushOne sel) r = (.ok (), t) ∧ ∀ name, t.useState sel name = r.useState sel name := by
    intro l
    induction l with
    | nil => exact fun r _ => ⟨r, rfl, fun _ => rfl⟩
    | cons q l ih =>
      intro r hl
      obtain ⟨u, hu⟩ := flushOne_settled (hl q List.mem_cons_self)
      have hstate : ∀ name, u.useState sel name = r.useState sel name := by
        intro name
        rw [(flushOne_ok hu).2.1]
        by_cases hn : q.name = name
        · rw [← hn, hl q List.mem_cons_self, Option.map_some, if_pos rfl]
        · simp only [if_neg hn, Option.map_id']
      obtain ⟨t, ht, hsame⟩ := ih u fun p hp => (hstate p.name).trans (hl p (List.mem_cons_of_mem _ hp))
      exact ⟨t, forM_ok.mpr ⟨u, hu, ht⟩, fun name => (hsame name).trans (hstate name)⟩
  obtain ⟨t, ht, hsame⟩ := hloop selected.flags s hqueue
  exact ⟨t, (bind_of_ok _ (getSel_ok.mpr ⟨hs, rfl⟩)).trans ht, hsame⟩

theorem refresh_alone (h : s.Alone sel selected) : refresh select sel s =
    (modifySel sel SelectedEbuild.cleared >>= fun _ => loadMetadata selected.ebuild >>= fun _ =>
      flushUse sel >>= fun _ => modifySel sel fun x => { x with isDirty := false }) s := by
  rw [refresh_flush select h.entry]
  apply bind_congr_ok
  intro _ t ht
  obtain rfl := loadMetadata_ok ht
  apply bind_congr_ok
  intro _ r hr
  have hmeta : r.metadata selected.ebuild = s.file selected.ebuild :=
    (((flushUse_useOnly sel).same.ok hr).metadata selected.ebuild).symm.trans (metadata_loaded _ _)
  apply finishRefresh_alone
  · rw [hmeta]
    exact h.requiredUse
  · intro i
    rw [hmeta]
    exact h.depTypes i

/-- The state in which the queue is flushed, and where that leads to. -/
theorem Emerge.Alone.flushed (h : s.Alone sel selected) :
    ∃ t, flushUse sel ((s.atSel sel SelectedEbuild.cleared).loaded selected.ebuild) = (.ok (), t) ∧
      (∀ name, t.useState sel name =
        ((s.atSel sel SelectedEbuild.cleared).loaded selected.ebuild).useState sel name) ∧
      ∃ selected', t.selected[sel]? = some selected' ∧ selected'.generators = .empty := by
  have hs : ((s.atSel sel SelectedEbuild.cleared).loaded selected.ebuild).selected[sel]? =
      some selected.cleared := by
    rw [(loaded_apart sel _ _).2]
    exact cleared_get h.entry
  obtain ⟨t, ht, hsame⟩ := flushUse_settled hs fun q hq =>
    loaded_useState _ ((cleared_useState h.entry _).trans (h.queue q hq))
  have huse : SameButUse _ t := (flushUse_useOnly sel).same.ok ht
  obtain ⟨selected', hs', hgen, -⟩ := generators_of_deps (fun d hd => huse.deps sel ▸ hd) hs
  exact ⟨t, ht, hsame, selected', hs', hgen⟩

theorem silent_refresh (h : s.Alone sel selected) : Silent sel (refresh select sel) s := by
  have hrun : refresh select sel s = _ := refresh_alone h
  have hsilent : Silent sel (modifySel sel SelectedEbuild.cleared >>= fun _ => loadMetadata selected.ebuild >>=
      fun _ => flushUse sel >>= fun _ => modifySel sel fun x => { x with isDirty := false }) s := by
    apply Silent.bind
    · apply silent_modifySel
      · exact fun _ => rfl
      · exact fun _ => rfl
    · intro _ r hr
      obtain rfl : s.atSel sel SelectedEbuild.cleared = r := congrArg Prod.snd hr
      apply (silent_loadMetadata selected.ebuild).bind
      intro _ t ht
      obtain rfl := loadMetadata_ok ht
      obtain ⟨u, hu, hsame, -⟩ := h.flushed
      apply Silent.bind
      · refine ⟨fun ⟨suggestion, he⟩ => absurd ((congrArg Prod.fst hu).symm.trans he) (by simp), fun name v hv => ?_⟩
        rw [hu]
        exact (hsame name).trans hv
      · intro _ w _
        apply silent_modifySel
        · exact fun _ => rfl
        · exact fun _ => rfl
  exact ⟨hrun ▸ hsilent.quiet, hrun ▸ hsilent.stays⟩

theorem refresh_alone_generators (h : s.Alone sel selected) {t : Emerge}
    (ht : refresh select sel s = (.ok (), t)) :
    ∃ selected', t.selected[sel]? = some selected' ∧ selected'.generators = .empty := by
  rw [refresh_alone h] at ht
  obtain ⟨_, r, hempty, hrest⟩ := bind_ok.mp ht
  obtain ⟨_, r', hload, hflush⟩ := bind_ok.mp hrest
  obtain ⟨_, u, hu, hclean⟩ := bind_ok.mp hflush
  obtain rfl : s.atSel sel SelectedEbuild.cleared = r := congrArg Prod.snd hempty
  obtain rfl := loadMetadata_ok hload
  obtain ⟨u', hu', -, selected', hs', hgen⟩ := h.flushed
  obtain rfl : u' = u := congrArg Prod.snd (hu'.symm.trans hu)
  have ht' := (modifySel_ok hclean).1
  rw [hs', Option.map_some] at ht'
  exact ⟨_, ht', hgen⟩

theorem silent_refreshIfDirty (h : s.Alone sel selected) : Silent sel (refreshIfDirty select sel) s ∧
    ∀ t, refreshIfDirty select sel s = (.ok (), t) →
      ∃ selected', t.selected[sel]? = some selected' ∧ selected'.generators = .empty := by
  by_cases hdirty : selected.isDirty = true
  · have hrun := refreshIfDirty_dirty select h.entry hdirty
    have hsilent : Silent sel (refresh select sel) s := silent_refresh h
    rw [hrun]
    exact ⟨⟨hrun ▸ hsilent.quiet, hrun ▸ hsilent.stays⟩, fun t ht => refresh_alone_generators h ht⟩
  · have hok : refreshIfDirty select sel s = (.ok (), s) := by
      apply (bind_of_ok _ (getSel_ok.mpr ⟨h.entry, rfl⟩)).trans
      rw [if_neg hdirty]
      rfl
    refine ⟨silent_of_ok hok, fun t ht => ?_⟩
    obtain ⟨-, rfl⟩ := Prod.mk.inj (hok.symm.trans ht)
    exact ⟨selected, h.entry, h.generators⟩

theorem silent_regenerate (h : s.Alone sel selected) (fuel : Nat) :
    Silent sel (regenerate select fuel sel) s := by
  cases fuel with
  | zero =>
    refine ⟨?_, fun _ _ hv => hv⟩
    rintro ⟨suggestion, he⟩
    exact absurd (show Except.error Stop.diverged = _ from he) (by simp)
  | succ fuel =>
    obtain ⟨hsilent, hends⟩ : Silent sel (refreshIfDirty select sel) s ∧ _ := silent_refreshIfDirty h
    apply hsilent.bind
    intro _ t ht
    obtain ⟨selected', hs', hgen⟩ := hends t ht
    apply Silent.bind
    · apply silent_modifySel
      · exact fun _ => rfl
      · exact fun _ => rfl
    · intro _ r hr
      have hr' := (modifySel_ok hr).1
      rw [hs', Option.map_some] at hr'
      apply silent_of_ok (a := ())
      apply (bind_of_ok _ (getSel_ok.mpr ⟨hr', rfl⟩)).trans
      show (selected'.generators.entries.forM (resolveGenerator (regenerate select fuel) sel)) r = _
      rw [hgen]
      rfl

theorem Emerge.Alone.guarded (h : s.Alone sel selected) (demands : List UseDemand) :
    (s.guarded sel demands).Alone sel (demands.foldl SelectedEbuild.guard selected) := by
  obtain ⟨hebuild, -, hflags, hgen⟩ := selected.foldl_guard_same demands
  refine ⟨?_, fun q hq => ?_, hgen.trans h.generators, ?_, ?_⟩
  · rw [Emerge.guarded, atSel_self, h.entry]
    rfl
  · rw [guarded_useState]
    exact h.queue q (hflags ▸ hq)
  · rw [hebuild]
    exact h.requiredUse
  · rw [hebuild]
    exact h.depTypes

theorem Emerge.Alone.undisturbed (h : s.Alone sel selected) (fuel : Nat) {demands : List UseDemand}
    (hcurrent : s.Current sel demands) : s.Undisturbed select fuel sel demands := by
  have hsilent : Silent sel (regenerate select fuel sel) (s.guarded sel demands) :=
    silent_regenerate (h.guarded demands) fuel
  refine ⟨hsilent.quiet, fun d hd => hsilent.stays d.name d.value ?_⟩
  rw [guarded_useState]
  exact hcurrent d hd

end Alone

/-- The exceptions and the flags are right if and only if two requirements are opposed, or every flag
has what is demanded of it already and nothing else in `regenerate` disturbs this; an ebuild without
dependencies, and with a queue that changes nothing, disturbs nothing. -/
theorem useDemands_honoured_iff {select : Select} {fuel sel : Nat} {demands : List UseDemand} {s : Emerge}
    (hhas : ∀ d ∈ demands, s.HasUse sel d.name) :
    (s.Honoured select fuel sel demands ↔ UseDemand.Opposed demands ∨
      (s.Current sel demands ∧ s.Undisturbed select fuel sel demands)) ∧
    ∀ selected, s.Alone sel selected →
      (s.Honoured select fuel sel demands ↔ UseDemand.Opposed demands ∨ s.Current sel demands) := by
  refine ⟨honoured_iff_current hhas, fun selected h => ?_⟩
  rw [honoured_iff_current hhas]
  apply or_congr_right
  exact and_iff_left_of_imp (h.undisturbed fuel)

/-- `app-misc/foo` with the flag `f`, on or not, and `g` off. -/
def flagStart (state : Bool) (queue : List UseFlag) : Emerge :=
  let file : Metadata :=
    { Metadata.blank with
      iuse := [(['f'], { name := ['f'], state := state }), (['g'], { name := ['g'], state := false })] }
  { Emerge.init Portage.init UseHeap.init (fun _ => { fields := file, ok := true }) [1] with
    selected := [{ SelectedEbuild.init none (fooAtom .all Package.foo10) (fooEbuild 1 Package.foo10) with
      flags := queue }] }

/-- The entry queued is the state `g` has. -/
def queuedOff : List UseFlag :=
  [{ name := ['g'], state := false }]

/-- `f` is demanded twice, and in between `-g`. -/
def onOffOn : List UseDemand :=
  [{ name := ['f'], value := true }, { name := ['g'], value := false }, { name := ['f'], value := true }]

theorem flagStart_hasUse (state : Bool) :
    ∀ d ∈ onOffOn, (flagStart state queuedOff).HasUse 0 d.name := by
  intro d hd
  apply hasUse_of_getUse
  revert d
  cases state <;> decide

/-- With `f` on. -/
theorem useDemands_honoured_on :
    (flagStart true queuedOff).Honoured AutoGentoo.selectAtom 1 0 onOffOn := by
  have halone : (flagStart true queuedOff).Alone 0 { SelectedEbuild.init none (fooAtom .all Package.foo10)
      (fooEbuild 1 Package.foo10) with flags := queuedOff } := by
    refine ⟨rfl, by decide, rfl, rfl, fun i => ?_⟩
    fin_cases i <;> rfl
  exact ((useDemands_honoured_iff (flagStart_hasUse true)).2 _ halone).mpr (.inr (by unfold Current; decide))

/-- With `f` off. -/
theorem demand_off_raises : ¬ ∀ (select : Select) (fuel sel : Nat) (demands : List UseDemand) (s : Emerge)
    (selected : SelectedEbuild), s.selected[sel]? = some selected → selected.globalFlagHooks = [] →
      (s.file selected.ebuild).requiredUse = .null → (∀ d ∈ demands, s.HasUse sel d.name) →
        s.Honoured select fuel sel demands := by
  intro hall
  have hhas := flagStart_hasUse false
  have hhonoured := hall AutoGentoo.selectAtom 1 0 _ (flagStart false queuedOff) _ rfl rfl rfl hhas
  have hoff : ¬ (flagStart false queuedOff).Current 0 onOffOn := by
    intro h
    exact absurd (h _ List.mem_cons_self) (by decide)
  obtain ⟨suggestion, t, hloop⟩ := demands_raise hhas hoff
  have hraised := congrArg Prod.fst (bind_of_error (fun _ => regenerate AutoGentoo.selectAtom 1 0) hloop)
  obtain ⟨d, hd, d', hd', hname, hne⟩ := hhonoured.raises.mp ⟨suggestion, hraised⟩
  have hsame : ∀ d ∈ onOffOn, ∀ d' ∈ onOffOn, d.name = d'.name → d.value = d'.value := by decide
  exact hne (hsame d hd d' hd' hname)

end AutoGentoo
