import AutoGentoo.UseFrame

/-! Use dependencies between a parent and the ebuild chosen for its atom. The
hooks look at the flags of the child alone, so the modes that relate the two hold
after a call where they hold before it. -/

namespace AutoGentoo

open StateExcept Emerge

/-! ### What hooks hold fast -/

/-- The value a hook enforces. -/
def Hookable.lock : Hookable → Option Bool
  | .useSelection _ _ targetValue enforcing => if enforcing then some targetValue else none
  | _ => none

theorem Hookable.lock_runHook {flags : UseFlags} {arg : Option Bool} {hook hook' : Hookable}
    (h : hook.runHook flags arg = .ok hook') :
    hook'.lock = hook.lock ∧ ∀ v, hook.lock = some v → arg = some v := by
  cases hook with
  | useSelection useFlag flag targetValue enforcing =>
    rw [Hookable.runHook] at h
    split_ifs at h with hbad
    · rw [← Except.ok.inj h]
      refine ⟨rfl, fun v hv => ?_⟩
      cases enforcing with
      | false => exact absurd hv (by simp [Hookable.lock])
      | true =>
        rw [Hookable.lock, if_pos rfl] at hv
        simpa [Option.some.inj hv] using hbad
  | requiredUse expression =>
    rw [Hookable.runHook] at h
    cases hrun : RequiredUseHook.runHook flags expression with
    | error e => exact absurd (hrun ▸ h) (by simp [Except.map])
    | ok a =>
      rw [hrun] at h
      rw [← Except.ok.inj h]
      exact ⟨rfl, fun v hv => absurd hv (by simp [Hookable.lock])⟩
  | useConditional useflag dependency required isDirty =>
    rw [Hookable.runHook] at h
    refine ⟨?_, fun v hv => absurd hv (by simp [Hookable.lock])⟩
    split_ifs at h
    · rw [← Except.ok.inj h]
      rfl
    · rw [← Except.ok.inj h]
      rfl

namespace Emerge

/-- The values the hooks of an object enforce, one for each hook. -/
def locks (self : Emerge) (x : Nat) (name : Option (List Char)) : List (Option Bool) :=
  ((self.selected[x]?).map fun selected => (selected.hooks name).map Hookable.lock).getD []

def SameLocks (x : Nat) (s t : Emerge) : Prop := ∀ name, t.locks x name = s.locks x name

theorem sameLocks_refl {x : Nat} (s : Emerge) : SameLocks x s s := fun _ => rfl

theorem sameLocks_trans {x : Nat} (s t r : Emerge) (h : SameLocks x s t) (h' : SameLocks x t r) :
    SameLocks x s r := fun name => (h' name).trans (h name)

theorem locks_of_get {self : Emerge} {x : Nat} {selected : SelectedEbuild}
    (h : self.selected[x]? = some selected) (name : Option (List Char)) :
    self.locks x name = (selected.hooks name).map Hookable.lock := by
  rw [locks, h]
  rfl

end Emerge

namespace SelectedEbuild

theorem hooks_setHooks (self : SelectedEbuild) (name name' : Option (List Char))
    (hooks : List Hookable) :
    (self.setHooks name hooks).hooks name' = if name = name' then hooks else self.hooks name' := by
  cases name with
  | none =>
    cases name' with
    | none => rfl
    | some n => rw [if_neg (by simp)]; rfl
  | some n =>
    cases name' with
    | none => rw [if_neg (by simp)]; rfl
    | some n' =>
      show (Dict.get (Dict.set self.useFlagHooks n hooks) n').getD [] = _
      rw [Dict.get_set]
      by_cases hn : n = n'
      · rw [if_pos hn, if_pos (congrArg some hn)]
        rfl
      · rw [if_neg hn, if_neg (fun he => hn (Option.some.inj he))]
        rfl

end SelectedEbuild

theorem modifySel_sameLocks (x : Nat) (f : SelectedEbuild → SelectedEbuild)
    (hf : ∀ s name, (f s).hooks name = s.hooks name) : Respects (SameLocks x) (modifySel x f) := by
  intro s name
  rw [locks, locks, modifySel_self]
  cases s.selected[x]? with
  | none => rfl
  | some selected => simp only [Option.map_some, hf]

/-- A hook that is run enforces what it enforced before, and the argument is that. -/
theorem runHookAt_locks {x : Nat} {name : Option (List Char)} {arg : Option Bool} {i : Nat}
    {s t : Emerge} (h : runHookAt x name arg i s = (.ok (), t)) :
    SameLocks x s t ∧ ∀ v, (s.locks x name)[i]? = some (some v) → arg = some v := by
  obtain ⟨flags, s₁, hflags, hrest⟩ := bind_ok.mp h
  obtain ⟨selected, s₂, hget, hrest₂⟩ := bind_ok.mp hrest
  obtain ⟨rfl, -⟩ := useFlags_ok hflags
  obtain ⟨hs, rfl⟩ := getSel_ok.mp hget
  cases hhook : (selected.hooks name)[i]? with
  | none =>
    simp only [hhook] at hrest₂
    obtain ⟨-, rfl⟩ := pure_ok.mp hrest₂
    refine ⟨sameLocks_refl _, fun v hv => ?_⟩
    rw [locks_of_get hs, List.getElem?_map, hhook] at hv
    exact absurd hv (by simp)
  | some hook =>
    simp only [hhook] at hrest₂
    obtain ⟨hook', s₃, hraise, hset⟩ := bind_ok.mp hrest₂
    obtain ⟨hrun, rfl⟩ := raising_ok.mp hraise
    obtain ⟨hlock, harg⟩ := Hookable.lock_runHook hrun
    refine ⟨fun name' => ?_, fun v hv => harg v ?_⟩
    · rw [locks_of_get ((modifySel_ok hset).1.trans (by rw [hs]; rfl)), locks_of_get hs,
        SelectedEbuild.hooks_setHooks]
      split_ifs with hn
      · rw [← hn, List.map_set, hlock]
        refine List.ext_getElem? fun j => ?_
        rw [List.getElem?_set]
        split_ifs with hij hlt
        · rw [← hij, List.getElem?_map, hhook, Option.map_some]
        · rw [← hij, List.getElem?_eq_none (Nat.not_lt.mp hlt)]
        · rfl
      · rfl
    · rw [locks_of_get hs, List.getElem?_map, hhook] at hv
      exact Option.some.inj hv

theorem runHooks_locks {x : Nat} {name : Option (List Char)} {arg : Option Bool} {s t : Emerge}
    (h : runHooks x name arg s = (.ok (), t)) :
    SameLocks x s t ∧ ∀ v, some v ∈ s.locks x name → arg = some v := by
  obtain ⟨selected, s₁, hget, hloop⟩ := bind_ok.mp h
  obtain ⟨hs, rfl⟩ := getSel_ok.mp hget
  have hturns : ∀ (l : List Nat) (r : Emerge), l.forM (runHookAt x name arg) r = (.ok (), t) →
      SameLocks x r t ∧ ∀ i ∈ l, ∀ v, (r.locks x name)[i]? = some (some v) → arg = some v := by
    intro l
    induction l with
    | nil =>
      intro r hr
      obtain ⟨-, rfl⟩ := pure_ok.mp hr
      exact ⟨sameLocks_refl _, fun i hi => absurd hi (by simp)⟩
    | cons i l ih =>
      intro r hr
      obtain ⟨r', hi, hl⟩ := forM_ok.mp hr
      obtain ⟨hsame, harg⟩ := runHookAt_locks hi
      obtain ⟨hsame', hargs⟩ := ih r' hl
      refine ⟨sameLocks_trans _ _ _ hsame hsame', fun j hj => ?_⟩
      rcases List.mem_cons.mp hj with rfl | hj
      · exact harg
      · rw [← hsame name]
        exact hargs j hj
  obtain ⟨hsame, hargs⟩ := hturns _ _ hloop
  refine ⟨hsame, fun v hv => ?_⟩
  obtain ⟨i, hi⟩ := List.mem_iff_getElem?.mp hv
  refine hargs i (List.mem_range.mpr ?_) v hi
  have hlt := (List.getElem?_eq_some_iff.mp hi).1
  rwa [locks_of_get hs, List.length_map] at hlt

theorem runHooks_ok_sameFlags {x : Nat} {name : Option (List Char)} {arg : Option Bool} {s t : Emerge}
    (h : runHooks x name arg s = (.ok (), t)) (name' : List Char) :
    t.useState x name' = s.useState x name' :=
  ((runHooks_sameFlags x name arg).ok h).useState x name'

/-! ### The queue of flags -/

/-- The state a flag has after a queue is flushed. -/
def lastOf (queue : List UseFlag) (name : List Char) (state : Bool) : Bool :=
  queue.foldl (fun c q => if q.name = name then q.state else c) state

theorem lastOf_of_forall {queue : List UseFlag} {name : List Char} {state : Bool}
    (h : ∀ q ∈ queue, q.name = name → q.state = state) : lastOf queue name state = state := by
  induction queue with
  | nil => rfl
  | cons q queue ih =>
    have hq : (if q.name = name then q.state else state) = state := by
      split_ifs with hn
      · exact h q List.mem_cons_self hn
      · rfl
    rw [lastOf, List.foldl_cons, hq]
    exact ih fun r hr => h r (List.mem_cons_of_mem _ hr)

theorem UseFlags.stateOf_set (useflags iuse : Dict (List Char) UseFlag) (useflag : UseFlag)
    (name : List Char) :
    stateOf { useflags := Dict.set useflags useflag.name useflag, iuse := iuse } name =
      if useflag.name = name then some useflag.state
      else stateOf { useflags := useflags, iuse := iuse } name := by
  rw [stateOf, Dict.get_set]
  split_ifs
  · rfl
  · rfl

theorem useState_of_get {s : Emerge} {x : Nat} {selected : SelectedEbuild}
    (h : s.selected[x]? = some selected) (name : List Char) :
    s.useState x name = UseFlags.stateOf
      { useflags := selected.useflags, iuse := (s.metadata selected.ebuild).iuse } name := by
  rw [useState, useAt, h]
  rfl

/-- One turn: the flag takes the state that waits for it, which no hook forbids. -/
theorem flushOne_ok {x : Nat} {useflag : UseFlag} {s t : Emerge}
    (h : flushOne x useflag s = (.ok (), t)) : SameLocks x s t ∧
      (∀ name, t.useState x name =
        (s.useState x name).map fun c => if useflag.name = name then useflag.state else c) ∧
      ∀ v, some v ∈ s.locks x (some useflag.name) → s.useState x useflag.name = some v →
        useflag.state = v := by
  obtain ⟨_, s₁, hpop, hrest⟩ := bind_ok.mp h
  obtain ⟨flags, s₂, hflags, hrest₂⟩ := bind_ok.mp hrest
  obtain ⟨current, s₃, hraise, hrest₃⟩ := bind_ok.mp hrest₂
  obtain ⟨rfl, selected, hs, rfl⟩ := useFlags_ok hflags
  obtain ⟨hget, rfl⟩ := raising_ok.mp hraise
  have hpopped : SameLocks x s s₃ := by
    refine (modifySel_sameLocks x _ ?_).ok hpop
    exact fun _ _ => rfl
  have hsame : SameFlags s s₃ := by
    refine (modifySel_sameFlags x _ ?_ ?_).ok hpop
    · exact fun _ => rfl
    · exact fun _ => rfl
  have hcurrent : s.useState x useflag.name = some current.state := by
    rw [← hsame.useState, useState_of_get hs]
    exact UseFlags.stateOf_of_getUse hget
  split_ifs at hrest₃ with heq
  · obtain ⟨-, rfl⟩ := pure_ok.mp hrest₃
    refine ⟨hpopped, fun name => ?_, fun v _ hv => ?_⟩
    · rw [hsame.useState]
      by_cases hn : useflag.name = name
      · rw [← hn, hcurrent, Option.map_some, if_pos rfl, heq]
      · simp only [if_neg hn, Option.map_id']
    · rw [← heq]
      exact Option.some.inj (hcurrent.symm.trans hv)
  · obtain ⟨_, s₄, hset, hhooks⟩ := bind_ok.mp hrest₃
    obtain ⟨_, s₅, hrun, hglobal⟩ := bind_ok.mp hhooks
    have hset' : SameLocks x s₃ s₄ := by
      refine (modifySel_sameLocks x _ ?_).ok hset
      exact fun _ _ => rfl
    obtain ⟨hrun', harg⟩ := runHooks_locks hrun
    have hglobal' := (runHooks_locks hglobal).1
    have hstate : ∀ name, s₄.useState x name =
        if useflag.name = name then some useflag.state else s₃.useState x name := by
      intro name
      have hs₄ := (modifySel_ok hset).1
      rw [hs, Option.map_some] at hs₄
      have hmeta : s₄.metadata selected.ebuild = s₃.metadata selected.ebuild := by
        obtain rfl : (modifySel x _ s₃).2 = s₄ := congrArg Prod.snd hset
        rfl
      rw [useState_of_get hs₄, useState_of_get hs, hmeta]
      exact UseFlags.stateOf_set _ _ _ _
    refine ⟨?_, fun name => ?_, fun v hlock _ => ?_⟩
    · exact sameLocks_trans _ _ _ hpopped (sameLocks_trans _ _ _ hset'
        (sameLocks_trans _ _ _ hrun' hglobal'))
    · rw [runHooks_ok_sameFlags hglobal, runHooks_ok_sameFlags hrun, hstate, hsame.useState]
      split_ifs with hn
      · rw [← hn, hcurrent, Option.map_some]
      · rw [Option.map_id']
    · rw [← hpopped, ← hset'] at hlock
      exact Option.some.inj (harg v hlock)

theorem flushUse_ok {x : Nat} {s t : Emerge} {selected : SelectedEbuild}
    (hs : s.selected[x]? = some selected) (h : flushUse x s = (.ok (), t)) : SameLocks x s t ∧
      (∀ name, t.useState x name = (s.useState x name).map (lastOf selected.flags name)) ∧
      ∀ name v, some v ∈ s.locks x (some name) → s.useState x name = some v →
        ∀ q ∈ selected.flags, q.name = name → q.state = v := by
  have hloop : ∀ (l : List UseFlag) (r : Emerge), l.forM (flushOne x) r = (.ok (), t) →
      SameLocks x r t ∧ (∀ name, t.useState x name = (r.useState x name).map (lastOf l name)) ∧
        ∀ name v, some v ∈ r.locks x (some name) → r.useState x name = some v →
          ∀ q ∈ l, q.name = name → q.state = v := by
    intro l
    induction l with
    | nil =>
      intro r hr
      obtain ⟨-, rfl⟩ := pure_ok.mp hr
      exact ⟨sameLocks_refl _, fun name => Option.map_id'.symm, fun _ _ _ _ q hq => absurd hq (by simp)⟩
    | cons useflag l ih =>
      intro r hr
      obtain ⟨r', hone, hrest⟩ := forM_ok.mp hr
      obtain ⟨hsame, hstate, hlock⟩ := flushOne_ok hone
      obtain ⟨hsame', hstate', hlock'⟩ := ih r' hrest
      refine ⟨sameLocks_trans _ _ _ hsame hsame', fun name => ?_, fun name v hv hc => ?_⟩
      · rw [hstate', hstate, Option.map_map]
        rfl
      · have hhead : useflag.name = name → useflag.state = v := by
          rintro rfl
          exact hlock v hv hc
        intro q hq hn
        rcases List.mem_cons.mp hq with rfl | hq
        · exact hhead hn
        · refine hlock' name v (hsame (some name) ▸ hv) ?_ q hq hn
          rw [hstate, hc, Option.map_some]
          split_ifs with hn'
          · rw [hhead hn']
          · rfl
  obtain ⟨selected', r, hget, hrest⟩ := bind_ok.mp h
  obtain ⟨hs', rfl⟩ := getSel_ok.mp hget
  obtain rfl := Option.some.inj (hs.symm.trans hs')
  exact hloop _ _ hrest

/-! ### What a requirement leaves -/

namespace AtomUse

/-- The state the hook of a requirement enforces, for the state the flag has. -/
def enforced (state : Bool) : AtomUse → Option Bool
  | .enable => some true
  | .disable => some false
  | .disableIfOff => if state then none else some false
  | .enableIfOn => if state then some true else none
  | .equal => some state
  | .opposite => some (!state)

/-- What it puts into the queue. -/
def queued (name : List Char) (state : Bool) : AtomUse → List UseFlag
  | .enable => [{ name := name, state := true }]
  | .disable => [{ name := name, state := false }]
  | .opposite => [{ name := name, state := !state }]
  | .disableIfOff | .enableIfOn | .equal => []

theorem of_mem_queued {option : AtomUse} {name : List Char} {state : Bool} {q : UseFlag}
    (h : q ∈ option.queued name state) : q.name = name ∧ option.enforced state = some q.state := by
  cases option with
  | enable | disable | opposite =>
    rw [List.mem_singleton.mp h]
    exact ⟨rfl, rfl⟩
  | disableIfOff | enableIfOn | equal => exact absurd h (by simp [queued])

end AtomUse

theorem scheduleUse_hasFrame {x : Nat} {useflag : UseFlag} {s t : Emerge} {frame : SelectedEbuild}
    (hs : s.HasFrame x frame) (h : scheduleUse x useflag s = (.ok (), t)) :
    t.HasFrame x { frame with flags := frame.flags ++ [useflag], isDirty := true } := by
  refine modifySel_hasFrame ?_ hs h
  rintro selected rfl
  rfl

/-- A new hook enforces what its mode says, of the state of the flag. -/
theorem newUseSelection_ok {x : Nat} {name : List Char} {state : Bool} {option : AtomUse}
    {s t : Emerge} {hook : Hookable} {frame : SelectedEbuild} (hs : s.HasFrame x frame)
    (h : newUseSelection x { name := name, state := state } option s = (.ok hook, t)) :
    hook.lock = option.enforced state ∧ SameLocks x s t ∧
      t.HasFrame x { frame with
        flags := frame.flags ++ option.queued name state
        isDirty := frame.isDirty || option.schedules } := by
  have hschedule : ∀ useflag, Respects (SameLocks x) (scheduleUse x useflag) := fun useflag =>
    modifySel_sameLocks x _ fun _ _ => rfl
  have hquiet : s.HasFrame x { frame with flags := frame.flags ++ [], isDirty := frame.isDirty || false } := by
    rw [List.append_nil, Bool.or_false]
    exact hs
  have hput : ∀ useflag hook', (scheduleUse x useflag >>= fun _ => pure hook') s = (.ok hook, t) →
      hook = hook' ∧ SameLocks x s t ∧
        t.HasFrame x { frame with flags := frame.flags ++ [useflag], isDirty := frame.isDirty || true } := by
    intro useflag hook' hrun
    obtain ⟨_, s₁, hput, hend⟩ := bind_ok.mp hrun
    obtain ⟨rfl, rfl⟩ := pure_ok.mp hend
    rw [Bool.or_true]
    exact ⟨rfl, (hschedule _).ok hput, scheduleUse_hasFrame hs hput⟩
  cases option with
  | enable | disable | opposite =>
    obtain ⟨rfl, hrest⟩ := hput _ _ h
    exact ⟨rfl, hrest⟩
  | disableIfOff =>
    obtain ⟨rfl, rfl⟩ := pure_ok.mp h
    exact ⟨by cases state <;> rfl, sameLocks_refl s, hquiet⟩
  | enableIfOn =>
    obtain ⟨rfl, rfl⟩ := pure_ok.mp h
    exact ⟨by cases state <;> rfl, sameLocks_refl s, hquiet⟩
  | equal =>
    obtain ⟨rfl, rfl⟩ := pure_ok.mp h
    exact ⟨rfl, sameLocks_refl s, hquiet⟩

theorem addUseHook_ok {x : Nat} {use : UseFlag} {hook : Hookable} {s t : Emerge}
    (h : addUseHook x (some use) hook s = (.ok (), t)) (hv : s.useState x use.name = some use.state) :
    t.locks x (some use.name) = s.locks x (some use.name) ++ [hook.lock] ∧
      (∀ name, name ≠ some use.name → t.locks x name = s.locks x name) ∧
      ∀ v, hook.lock = some v → use.state = v := by
  obtain ⟨selected, s₁, hget, hrest⟩ := bind_ok.mp h
  obtain ⟨_, s₂, hadd, hrest₂⟩ := bind_ok.mp hrest
  obtain ⟨arg, s₃, harg, hrun⟩ := bind_ok.mp hrest₂
  obtain ⟨hs, rfl⟩ := getSel_ok.mp hget
  have hs₂ := (modifySel_ok hadd).1
  simp only [hs, Option.map_some] at hs₂
  have hlocks : ∀ name, s₂.locks x name =
      if some use.name = name then s₁.locks x name ++ [hook.lock] else s₁.locks x name := by
    intro name
    rw [locks_of_get hs₂, locks_of_get hs, SelectedEbuild.hooks_setHooks]
    split_ifs with hn
    · rw [← hn, List.map_append]
      rfl
    · rfl
  have hstate : s₂.useState x use.name = some use.state := by
    rw [← hv]
    refine ((modifySel_sameFlags x _ ?_ ?_).ok hadd).useState x _
    · exact fun s => setHooks_settled s _ _
    · exact fun s => setHooks_useflags s _ _
  have harg' : arg = some use.state ∧ s₃ = s₂ := by
    obtain ⟨flags, s₄, hflags, hrest₃⟩ := bind_ok.mp harg
    obtain ⟨current, s₅, hraise, hend⟩ := bind_ok.mp hrest₃
    obtain ⟨rfl, selected', hs', rfl⟩ := useFlags_ok hflags
    obtain ⟨hcurrent, rfl⟩ := raising_ok.mp hraise
    obtain ⟨rfl, rfl⟩ := pure_ok.mp hend
    refine ⟨?_, rfl⟩
    rw [← hstate, useState_of_get hs']
    exact (UseFlags.stateOf_of_getUse hcurrent).symm
  obtain ⟨rfl, rfl⟩ := harg'
  obtain ⟨hsame, hbound⟩ := runHookAt_locks hrun
  refine ⟨?_, fun name hn => ?_, fun v hlock => ?_⟩
  · rw [hsame, hlocks, if_pos rfl]
  · rw [hsame, hlocks, if_neg hn.symm]
  · refine Option.some.inj (hbound v ?_)
    have hn : (s₃.locks x (some use.name))[(selected.hooks (some use.name)).length]? = some hook.lock := by
      rw [hlocks, if_pos rfl, locks_of_get hs]
      simp
    exact hn.trans (congrArg some hlock)

namespace Emerge

/-- The object has the flag of this name. -/
def HasUse (self : Emerge) (x : Nat) (name : List Char) : Prop :=
  ∃ flags use, self.useAt x = some flags ∧ flags.getUse (some name) = .ok use ∧ use.name = name

theorem HasUse.state {self : Emerge} {x : Nat} {name : List Char} (h : self.HasUse x name) :
    ∃ state, self.useState x name = some state := by
  obtain ⟨flags, use, hat, hget, -⟩ := h
  exact ⟨use.state, by rw [useState, hat, Option.bind_some, UseFlags.stateOf_of_getUse hget]⟩

/-- Whether a flag is on; one the object does not have is not. -/
def isOn (self : Emerge) (x : Nat) (name : List Char) : Bool := (self.useState x name).getD false

theorem HasUse.isOn {self : Emerge} {x : Nat} {name : List Char} (h : self.HasUse x name) :
    self.useState x name = some (self.isOn x name) := by
  obtain ⟨state, hstate⟩ := h.state
  rw [Emerge.isOn, hstate, Option.getD_some]

theorem HasUse.sameFlags {s t : Emerge} {x : Nat} {name : List Char} (h : s.HasUse x name)
    (hsame : SameFlags s t) : t.HasUse x name := by
  obtain ⟨flags, use, hat, hget⟩ := h
  exact ⟨flags, use, (hsame.useAt x).trans hat, hget⟩

/-- The flag that an object has under the name has that name. -/
def OwnName (self : Emerge) (x : Nat) (name : List Char) : Prop :=
  ∀ flags use, self.useAt x = some flags → flags.getUse (some name) = .ok use → use.name = name

theorem OwnName.sameFlags {s t : Emerge} {x : Nat} {name : List Char} (h : s.OwnName x name)
    (hsame : SameFlags s t) : t.OwnName x name := fun flags use hat hget =>
  h flags use ((hsame.useAt x).symm.trans hat) hget

theorem OwnName.hasUse {s : Emerge} {x : Nat} {name : List Char} {state : Bool} (h : s.OwnName x name)
    (hv : s.useState x name = some state) : s.HasUse x name := by
  obtain ⟨flags, hat, hstate⟩ := Option.bind_eq_some_iff.mp hv
  obtain ⟨use, hget, -⟩ := UseFlags.getUse_of_stateOf hstate
  exact ⟨flags, use, hat, hget, h flags use hat hget⟩

/-- The state of the flag of a requirement when it has been added: where the object does not know the
flag, `[f]` adds it on and `[f?]` adds it off. -/
def stateFor (self : Emerge) (x : Nat) (use : AtomFlag) : Bool :=
  (self.useState x use.name).getD (use.option = .enable)

/-- The same for a list of requirements, of which the first on a flag adds it. -/
def given (self : Emerge) (x : Nat) : List AtomFlag → List Char → Bool
  | [], name => self.isOn x name
  | use :: uses, name => if use.name = name then self.stateFor x use else self.given x uses name

/-- The requirement puts a flag into the queue of the object. -/
def schedules (self : Emerge) (x : Nat) (use : AtomFlag) : Bool :=
  use.option.schedules || (self.useState x use.name).isNone

variable {s t : Emerge} {x : Nat} {uses : List AtomFlag} {name : List Char} {state : Bool}

theorem given_of_known (h : s.useState x name = some state) : s.given x uses name = state := by
  induction uses with
  | nil => rw [given, isOn, h, Option.getD_some]
  | cons use uses ih =>
    rw [given]
    split_ifs with hn
    · subst hn
      rw [stateFor, h, Option.getD_some]
    · exact ih

theorem given_congr (h : t.useState x name = s.useState x name) : t.given x uses name = s.given x uses name := by
  induction uses with
  | nil => rw [given, given, isOn, isOn, h]
  | cons use uses ih =>
    rw [given, given, ih]
    split_ifs with hn
    · subst hn
      rw [stateFor, stateFor, h]
    · rfl

/-- Only the flags, the hooks and the queues of objects differ, and no flag has changed. -/
structure Grown (s t : Emerge) : Prop where
  use : SameButUse s t
  state : ∀ x name v, s.useState x name = some v → t.useState x name = some v

theorem SameFlags.grown (h : SameFlags s t) : Grown s t :=
  ⟨h.1, fun x name _ hv => (h.useState x name).trans hv⟩

theorem Grown.trans {r : Emerge} (h : Grown s t) (h' : Grown t r) : Grown s r :=
  ⟨h.use.trans h'.use, fun x name v hv => h'.state x name v (h.state x name v hv)⟩

/-- Requirements have been added to the object. -/
structure Required (x : Nat) (uses : List AtomFlag) (frame : SelectedEbuild) (s t : Emerge) : Prop where
  grown : Grown s t
  known : ∀ use ∈ uses, t.useState x use.name = some (s.given x uses use.name)
  others : ∀ name, (∀ use ∈ uses, use.name ≠ name) → t.useState x name = s.useState x name
  ownName : ∀ name, s.OwnName x name → t.OwnName x name
  queue : ∃ queue, t.HasFrame x { frame with
      flags := frame.flags ++ queue
      isDirty := frame.isDirty || uses.any (s.schedules x) } ∧
    ∀ q ∈ queue, ∃ use ∈ uses, use.name = q.name ∧ q.state = s.given x uses q.name ∧
      some q.state ∈ t.locks x (some q.name)
  locks : ∀ name v, some v ∈ s.locks x name → some v ∈ t.locks x name
  enforced : ∀ use ∈ uses, ∀ v, use.option.enforced (s.given x uses use.name) = some v →
    s.given x uses use.name = v ∧ some v ∈ t.locks x (some use.name)

end Emerge

theorem addUseRequirement_ok {x : Nat} {name : List Char} {option : AtomUse} {s t : Emerge}
    {frame : SelectedEbuild} {state : Bool} (hhas : s.HasUse x name) (hv : s.useState x name = some state)
    (hs : s.HasFrame x frame) (h : addUseRequirement x name option s = (.ok (), t)) :
    SameFlags s t ∧
      t.HasFrame x { frame with
        flags := frame.flags ++ option.queued name state
        isDirty := frame.isDirty || option.schedules } ∧
      (∀ name v, some v ∈ s.locks x name → some v ∈ t.locks x name) ∧
      ∀ v, option.enforced state = some v → state = v ∧ some v ∈ t.locks x (some name) := by
  have hsame : SameFlags s t := (addUseRequirement_sameFlags x _ _).ok h
  obtain ⟨flags, s₂, hflags, hrest₂⟩ := bind_ok.mp h
  obtain ⟨current, s₃, hraise, hrest₃⟩ := bind_ok.mp hrest₂
  obtain ⟨hook, s₄, hnew, hadd⟩ := bind_ok.mp hrest₃
  obtain ⟨rfl, selected, hsel, rfl⟩ := useFlags_ok hflags
  obtain ⟨hget, rfl⟩ := raising_ok.mp hraise
  obtain ⟨flags, current', hat, hget', hname⟩ := hhas
  rw [useAt, hsel, Option.map_some, Option.some.injEq] at hat
  rw [← hat, hget] at hget'
  obtain rfl := Except.ok.inj hget'
  have hstate : current.state = state := by
    rw [useState_of_get hsel, UseFlags.stateOf_of_getUse hget] at hv
    exact Option.some.inj hv
  obtain rfl : current = { name := name, state := state } := by rw [← hname, ← hstate]
  obtain ⟨hlock, hlocks, hframe⟩ := newUseSelection_ok hs hnew
  have hv₄ : s₄.useState x name = some state := by
    rw [← hv]
    exact ((newUseSelection_sameFlags x _ _).ok hnew).useState x _
  obtain ⟨hown, hother, hbound⟩ := addUseHook_ok hadd hv₄
  refine ⟨hsame, ((addUseHook_sameCore x _ _).ok hadd).hasFrame hframe, fun name' v hmem => ?_,
    fun v henf => ⟨hbound v (hlock.trans henf), ?_⟩⟩
  · rw [← hlocks] at hmem
    by_cases hn : name' = some name
    · rw [hn] at hmem ⊢
      rw [hown]
      exact List.mem_append_left _ hmem
    · rwa [hother name' hn]
  · rw [hown, hlock.trans henf]
    exact List.mem_append_right _ (List.mem_singleton.mpr rfl)

/-- A requirement on a flag that the object knows. -/
theorem requireUse_known {x : Nat} {use : AtomFlag} {s t : Emerge} {frame : SelectedEbuild} {state : Bool}
    (hname : s.OwnName x use.name) (hv : s.useState x use.name = some state) (hs : s.HasFrame x frame)
    (h : addUseRequirement x use.name use.option s = (.ok (), t)) : Required x [use] frame s t := by
  have hgiven : s.given x [use] use.name = state := given_of_known hv
  obtain ⟨hsame, hframe, hlocks, henforced⟩ := addUseRequirement_ok (hname.hasUse hv) hv hs h
  refine ⟨hsame.grown, ?_, fun name _ => hsame.useState x name, fun name hown => hown.sameFlags hsame,
    ⟨use.option.queued use.name state, ?_, fun q hq => ?_⟩, hlocks, ?_⟩
  · rw [List.forall_mem_singleton, hgiven, hsame.useState, hv]
  · rw [List.any_cons, List.any_nil, Bool.or_false, schedules, hv, Option.isNone_some, Bool.or_false]
    exact hframe
  · obtain ⟨hn, henf⟩ := AtomUse.of_mem_queued hq
    obtain ⟨hstate, hlock⟩ := henforced _ henf
    refine ⟨use, List.mem_singleton.mpr rfl, hn.symm, ?_, ?_⟩
    · rw [hn, hgiven, hstate]
    · rwa [hn]
  · rw [List.forall_mem_singleton, hgiven]
    exact henforced

theorem addUse_ok {x : Nat} {name : List Char} {value : Bool} {s t : Emerge} {frame : SelectedEbuild}
    (hnone : s.useState x name = none) (hs : s.HasFrame x frame) (h : addUse x name value s = (.ok (), t)) :
    Grown s t ∧ t.useState x name = some value ∧
      (∀ other, name ≠ other → t.useState x other = s.useState x other) ∧
      (∀ other, s.OwnName x other → t.OwnName x other) ∧ t.OwnName x name ∧ t.HasFrame x frame ∧
        SameLocks x s t := by
  have huse : SameButUse s t := (addUse_useOnly x name value).same.ok h
  have hframe := ((addUse_sameCore x name value).ok h).hasFrame hs
  have hlocks : SameLocks x s t := by
    refine (modifySel_sameLocks x _ ?_).ok h
    exact fun _ _ => rfl
  obtain ⟨selected, hsel, -⟩ := hs
  have ht : t.selected[x]? = some { selected with
      useflags := Dict.set selected.useflags name { name := name, state := value } } := by
    rw [(modifySel_ok h).1, hsel]
    rfl
  have hmeta : t.metadata selected.ebuild = s.metadata selected.ebuild := huse.metadata selected.ebuild |>.symm
  have hat : t.useAt x = some
      { useflags := Dict.set selected.useflags name { name := name, state := value }
        iuse := (s.metadata selected.ebuild).iuse } := by
    rw [useAt, ht, Option.map_some, hmeta]
  have hgetAt (other : List Char) (hne : name ≠ other) (useflags iuse : Dict (List Char) UseFlag) :
      UseFlags.getUse { useflags := Dict.set useflags name { name := name, state := value }, iuse := iuse }
        (some other) = UseFlags.getUse { useflags := useflags, iuse := iuse } (some other) := by
    simp only [UseFlags.getUse, Dict.get_set, if_neg hne]
  have hself : t.OwnName x name := by
    intro flags use hflags hget
    obtain rfl := Option.some.inj (hat.symm.trans hflags)
    simp only [UseFlags.getUse, Dict.get_set, if_true] at hget
    rw [← Except.ok.inj hget]
  have hstate (other : List Char) : t.useState x other =
      if name = other then some value else s.useState x other := by
    rw [useState, hat, useState_of_get hsel, Option.bind_some]
    exact UseFlags.stateOf_set _ _ { name := name, state := value } other
  refine ⟨⟨huse, fun y other v hv => ?_⟩, by rw [hstate, if_pos rfl], fun other hne => by rw [hstate, if_neg hne],
    fun other hown => ?_, hself, hframe, hlocks⟩
  · by_cases hy : y = x
    · subst hy
      rw [hstate, if_neg, hv]
      rintro rfl
      exact absurd (hnone.symm.trans hv) (by simp)
    · obtain rfl : (addUse x name value s).2 = t := by rw [h]
      have hother : (addUse x name value s).2.selected[y]? = s.selected[y]? := modifySel_ne (Ne.symm hy) _ s
      rw [useState, useAt] at hv ⊢
      rw [hother]
      exact hv
  · by_cases hne : name = other
    · exact hne ▸ hself
    · intro flags use hflags hget
      obtain rfl := Option.some.inj (hat.symm.trans hflags)
      refine hown _ use (by rw [useAt, hsel, Option.map_some]) ?_
      rwa [hgetAt other hne] at hget

/-- One on a flag it does not know: `use.default` is the mode, of which only two are defaults to add. -/
theorem requireUse_added {x : Nat} {use : AtomFlag} {option : AtomUse} {s r t : Emerge} {frame : SelectedEbuild}
    {value : Bool} (hnone : s.useState x use.name = none) (hs : s.HasFrame x frame)
    (hadd : addUse x use.name value s = (.ok (), r))
    (h : addUseRequirement x use.name option r = (.ok (), t)) (hvalue : value = decide (use.option = .enable))
    (hoption : option.schedules = true) (henf : option.enforced value = some value)
    (hless : ∀ v, use.option.enforced value = some v → v = value) : Required x [use] frame s t := by
  obtain ⟨hgrown, hv, hothers, hown, hname, hframe, hlocks⟩ := addUse_ok hnone hs hadd
  obtain ⟨hsame, hframe', hlocks', henforced⟩ := addUseRequirement_ok (hname.hasUse hv) hv hframe h
  have hgiven : s.given x [use] use.name = value := by
    rw [given, if_pos rfl, stateFor, hnone, Option.getD_none, hvalue]
  have hlock := (henforced value henf).2
  refine ⟨hgrown.trans hsame.grown, ?_, fun name hn => ?_, fun name ho => (hown name ho).sameFlags hsame,
    ⟨option.queued use.name value, ?_, fun q hq => ?_⟩, fun name v hmem => hlocks' name v ?_, ?_⟩
  · rw [List.forall_mem_singleton, hgiven, hsame.useState, hv]
  · rw [hsame.useState, hothers name (hn use (List.mem_singleton.mpr rfl))]
  · rw [List.any_cons, List.any_nil, Bool.or_false, schedules, hnone, Option.isNone_none, Bool.or_true, ← hoption]
    exact hframe'
  · obtain ⟨hn, hq⟩ := AtomUse.of_mem_queued hq
    obtain ⟨hstate, hlock'⟩ := henforced _ hq
    refine ⟨use, List.mem_singleton.mpr rfl, hn.symm, ?_, ?_⟩
    · rw [hn, hgiven, hstate]
    · rwa [hn]
  · rwa [hlocks]
  · rw [List.forall_mem_singleton, hgiven]
    intro v hv
    obtain rfl := hless v hv
    exact ⟨rfl, hlock⟩

theorem requireUse_ok {x : Nat} {use : AtomFlag} {s t : Emerge} {frame : SelectedEbuild}
    (hname : s.OwnName x use.name) (hs : s.HasFrame x frame) (h : requireUse x use s = (.ok (), t)) :
    Required x [use] frame s t := by
  obtain ⟨flags, s₁, hflags, hrest⟩ := bind_ok.mp h
  obtain ⟨rfl, selected, hsel, rfl⟩ := useFlags_ok hflags
  split_ifs at hrest with hhas
  · rw [UseFlags.hasUse_iff, ← useState_of_get hsel] at hhas
    obtain ⟨state, hv⟩ := Option.ne_none_iff_exists'.mp hhas
    exact requireUse_known hname hv hs hrest
  · rw [UseFlags.hasUse_iff, not_not, ← useState_of_get hsel] at hhas
    rw [AtomFlag.defaultMember] at hrest
    cases hoption : use.option with
    | disable | disableIfOff | equal | opposite =>
      rw [hoption] at hrest
      exact absurd hrest throw_ok
    | enable | enableIfOn =>
      rw [hoption] at hrest
      obtain ⟨_, r, hadd, hrequire⟩ := bind_ok.mp hrest
      refine requireUse_added hhas hs hadd hrequire ?_ rfl rfl ?_
      · rw [hoption]
        rfl
      · rw [hoption]
        simp [AtomUse.enforced]

namespace Emerge.Required

variable {x : Nat} {use : AtomFlag} {s r : Emerge} {frame : SelectedEbuild}

/-- One requirement settles its own flag. -/
theorem first_known (h : Required x [use] frame s r) : r.useState x use.name = some (s.stateFor x use) := by
  have hknown := h.known use (List.mem_singleton.mpr rfl)
  rwa [given, if_pos rfl] at hknown

/-- It leaves the others. -/
theorem first_other (h : Required x [use] frame s r) {name : List Char} (hn : use.name ≠ name) :
    r.useState x name = s.useState x name :=
  h.others name fun _ ho => List.mem_singleton.mp ho ▸ hn

theorem given_rest (h : Required x [use] frame s r) (l : List AtomFlag) (name : List Char) :
    r.given x l name = s.given x (use :: l) name := by
  rw [given]
  split_ifs with hn
  · exact given_of_known (hn ▸ h.first_known)
  · exact given_congr (h.first_other hn)

theorem schedules_rest (h : Required x [use] frame s r) (l : List AtomFlag) :
    ([use].any (s.schedules x) || l.any (r.schedules x)) = (use :: l).any (s.schedules x) := by
  rw [List.any_cons, List.any_nil, Bool.or_false, List.any_cons]
  cases hs : s.schedules x use with
  | true => rfl
  | false =>
    refine congrArg (false || ·) (List.any_congr rfl fun other => ?_)
    have hstate : r.useState x other.name = s.useState x other.name := by
      by_cases hn : use.name = other.name
      · rw [schedules, Bool.or_eq_false_iff] at hs
        obtain ⟨state, hstate⟩ := Option.isSome_iff_exists.mp (by simpa using hs.2)
        rw [← hn, h.first_known, stateFor, hstate, Option.getD_some]
      · exact h.first_other hn
    rw [schedules, schedules, hstate]

end Emerge.Required

theorem requireAll_ok {x : Nat} {l : List AtomFlag} {s t : Emerge} {frame : SelectedEbuild}
    (hnames : ∀ use ∈ l, s.OwnName x use.name) (hs : s.HasFrame x frame)
    (h : l.forM (requireUse x) s = (.ok (), t)) : Required x l frame s t := by
  induction l generalizing s frame with
  | nil =>
    obtain ⟨-, rfl⟩ := pure_ok.mp h
    refine ⟨(sameFlags_refl s).grown, by simp, fun _ _ => rfl, fun _ => id, ⟨[], ?_, by simp⟩, fun _ _ => id, by simp⟩
    rw [List.append_nil, List.any_nil, Bool.or_false]
    exact hs
  | cons use l ih =>
    obtain ⟨r, hone, hrest⟩ := forM_ok.mp h
    have hfirst := requireUse_ok (hnames use List.mem_cons_self) hs hone
    obtain ⟨front, hframe, hfront⟩ := hfirst.queue
    have htail := ih (fun other ho => hfirst.ownName _ (hnames other (List.mem_cons_of_mem _ ho))) hframe hrest
    obtain ⟨back, hframe', hback⟩ := htail.queue
    have hself (name : List Char) (hn : use.name = name) : s.given x [use] name = s.given x (use :: l) name := by
      rw [given, if_pos hn, given, if_pos hn]
    refine ⟨hfirst.grown.trans htail.grown, fun other ho => ?_, fun name hn => ?_,
      fun name ho => htail.ownName name (hfirst.ownName name ho), ⟨front ++ back, ?_, fun q hq => ?_⟩,
      fun name v hv => htail.locks name v (hfirst.locks name v hv), fun other ho v hv => ?_⟩
    · rcases List.mem_cons.mp ho with rfl | ho
      · rw [given, if_pos rfl]
        exact htail.grown.state x other.name _ hfirst.first_known
      · rw [← hfirst.given_rest]
        exact htail.known other ho
    · rw [htail.others name fun other ho => hn other (List.mem_cons_of_mem _ ho),
        hfirst.first_other (hn use List.mem_cons_self)]
    · rw [← hfirst.schedules_rest, ← Bool.or_assoc, ← List.append_assoc]
      exact hframe'
    · rcases List.mem_append.mp hq with hq | hq
      · obtain ⟨other, ho, hn, hstate, hlock⟩ := hfront q hq
        obtain rfl := List.mem_singleton.mp ho
        exact ⟨other, List.mem_cons_self, hn, hstate.trans (hself _ hn), htail.locks _ _ hlock⟩
      · obtain ⟨other, ho, hn, hstate, hlock⟩ := hback q hq
        exact ⟨other, List.mem_cons_of_mem _ ho, hn, hstate.trans (hfirst.given_rest l _), hlock⟩
    · rcases List.mem_cons.mp ho with rfl | ho
      · rw [← hself _ rfl] at hv ⊢
        obtain ⟨hstate, hlock⟩ := hfirst.enforced other (List.mem_singleton.mpr rfl) v hv
        exact ⟨hstate, htail.locks _ _ hlock⟩
      · rw [← hfirst.given_rest] at hv ⊢
        exact htail.enforced other ho v hv

/-! ### The chosen ebuild is regenerated -/

namespace Emerge

theorem KeepsUse.final {e : Ebuild} {x : Nat} {s t : Emerge} (h : KeepsUse e x s t)
    (hd : s.portage.Distinct) (hx : x ∈ s.resolveSession) (he : s.ebuildAt x = some e)
    (hend : t.ebuildAt x = some e) {name : List Char} {v : Bool} (hv : s.useState x name = some v) :
    t.useState x name = some v := by
  rcases h.holds hd hx he with ⟨-, other, hne, hother, -⟩ | ⟨-, hkept⟩
  · exact absurd (Option.some.inj (hother.symm.trans hend)) hne
  · exact hkept name v hv

end Emerge

theorem Emerge.loaded_around (self : Emerge) (ebuild : Ebuild) : Around self (self.loaded ebuild) := by
  rw [loaded]
  split_ifs
  · exact ⟨rfl, rfl, List.Subset.refl _, List.Subset.refl _⟩
  · exact ⟨rfl, rfl, List.subset_cons_self _ _, List.Subset.refl _⟩

theorem loaded_useState {s : Emerge} {x : Nat} (ebuild : Ebuild) {name : List Char} {v : Bool}
    (h : s.useState x name = some v) : (s.loaded ebuild).useState x name = some v := by
  apply (s.loaded_around ebuild).useState _ h
  intro selected hs
  exact ⟨selected, (loaded_apart x s ebuild).2 ▸ hs, rfl, rfl⟩

section Cleared

variable {s : Emerge} {x : Nat} {selected : SelectedEbuild}

theorem cleared_useState (hs : s.selected[x]? = some selected) (name : List Char) :
    (s.atSel x SelectedEbuild.cleared).useState x name = s.useState x name := by
  rw [useState_of_get (cleared_get hs), useState_of_get hs]
  rfl

theorem cleared_locks (hs : s.selected[x]? = some selected) (name : Option (List Char)) :
    (s.atSel x SelectedEbuild.cleared).locks x name = s.locks x name := by
  rw [locks_of_get (cleared_get hs), locks_of_get hs]
  cases name <;> rfl

end Cleared

/-- What `refresh` does to the flags of the object before it resolves the expressions. -/
theorem refreshUse_flags {x : Nat} {s t : Emerge} {selected : SelectedEbuild} {metadata : Metadata}
    (hs : s.selected[x]? = some selected) (h : refreshUse x s = (.ok metadata, t)) :
    Around s t ∧ t.ebuildAt x = some selected.ebuild ∧ ∀ name c, s.useState x name = some c →
      t.useState x name = some (lastOf selected.flags name c) ∧
        (some c ∈ s.locks x (some name) → ∀ q ∈ selected.flags, q.name = name → q.state = c) := by
  obtain ⟨r, hflush, rfl, hhook⟩ := refreshUse_inv hs h
  have hcleared : Around s (s.atSel x SelectedEbuild.cleared) :=
    ⟨rfl, rfl, List.Subset.refl _, List.Subset.refl _⟩
  have hloaded := (s.atSel x SelectedEbuild.cleared).loaded_around selected.ebuild
  have hselected := (loaded_apart x (s.atSel x SelectedEbuild.cleared) selected.ebuild).2
  have hs₁ : ((s.atSel x SelectedEbuild.cleared).loaded selected.ebuild).selected[x]? = some selected.cleared := by
    rw [hselected]
    exact cleared_get hs
  obtain ⟨-, hstate, hlock⟩ := flushUse_ok hs₁ hflush
  have hflush' : SameButUse _ r := (flushUse_useOnly x).same.ok hflush
  have hhook' : SameFlags r t := by
    rw [hookRequiredUse] at hhook
    split_ifs at hhook
    · obtain ⟨-, rfl⟩ := pure_ok.mp hhook
      exact sameFlags_refl _
    · exact (addUseHook_sameFlags x _ _).ok hhook
  refine ⟨((hcleared.trans hloaded).trans hflush'.around).trans hhook'.1.around, ?_, fun name c hc => ?_⟩
  · rw [hhook'.1.ebuildAt, hflush'.ebuildAt, ebuildAt, hs₁]
    rfl
  · have hbefore := loaded_useState selected.ebuild ((cleared_useState hs name).trans hc)
    refine ⟨?_, fun hmem => hlock name c ?_ hbefore⟩
    · rw [hhook'.useState, hstate, hbefore]
      rfl
    · rw [locks, hselected, ← locks, cleared_locks hs]
      exact hmem

namespace Emerge

/-- Regenerating the object is going to flush its queue. -/
def Flushes (self : Emerge) (x : Nat) : Prop :=
  x ∉ self.resolveSession ∧ ∃ selected, self.selected[x]? = some selected ∧ selected.isDirty = true

end Emerge

theorem getResolved_flags {fuel x : Nat} {s t : Emerge} {selected : SelectedEbuild}
    (hs : s.selected[x]? = some selected) (hd : s.portage.Distinct)
    (hend : t.ebuildAt x = some selected.ebuild)
    (h : getResolved (regenerate selectAtom fuel) x s = (.ok (), t)) {name : List Char} {c : Bool}
    (hc : s.useState x name = some c) :
    (s.Flushes x → t.useState x name = some (lastOf selected.flags name c) ∧
      (some c ∈ s.locks x (some name) → ∀ q ∈ selected.flags, q.name = name → q.state = c)) ∧
      (¬ s.Flushes x → t.useState x name = some c) := by
  by_cases hx : x ∈ s.resolveSession
  · rw [getResolved_of_mem _ hx] at h
    obtain rfl := (Prod.mk.inj h).2
    exact ⟨fun hf => absurd hx hf.1, fun _ => hc⟩
  rw [getResolved_of_notMem _ hx] at h
  cases fuel with
  | zero => exact absurd h throw_ok
  | succ fuel =>
    obtain ⟨_, v, hrefresh, h⟩ := bind_ok.mp h
    obtain ⟨_, u, hclear, h⟩ := bind_ok.mp h
    obtain ⟨selected', w, hget, hloop⟩ := bind_ok.mp h
    obtain ⟨-, rfl⟩ := getSel_ok.mp hget
    -- nothing after the refresh changes a flag of the object
    have hrest : KeepsUse selected.ebuild x v t := by
      refine keepsUse_trans v w t ((modifySel_keepsUse x ?_ ?_).ok hclear) ?_
      · exact fun _ => rfl
      · exact fun _ => rfl
      · exact (resolveGenerators_keepsUse (fun y hy => regenerate_keepsUse fuel hy) x _).ok hloop
    obtain ⟨dirty, r, hget', hif⟩ := bind_ok.mp hrefresh
    obtain ⟨hs', rfl⟩ := getSel_ok.mp hget'
    obtain rfl := Option.some.inj (hs.symm.trans hs')
    have hopened : Around s { s with resolveSession := x :: s.resolveSession } :=
      ⟨rfl, rfl, List.Subset.refl _, List.subset_cons_self _ _⟩
    split_ifs at hif with hdirty
    · refine ⟨fun _ => ?_, fun hn => absurd ⟨hx, selected, hs, hdirty⟩ hn⟩
      obtain ⟨metadata, a, b, huse, hexprs, hclean⟩ := refresh_split hif
      obtain ⟨haround, hebuild, hflags⟩ := refreshUse_flags hs' huse
      obtain ⟨hlast, hlock⟩ := hflags name c hc
      have hkeeps : KeepsUse selected.ebuild x a t := by
        refine keepsUse_trans a b t ((resolveExpressions_keepsUse x metadata).ok hexprs) ?_
        refine keepsUse_trans b v t ((modifySel_keepsUse x ?_ ?_).ok hclean) hrest
        · exact fun _ => rfl
        · exact fun _ => rfl
      refine ⟨hkeeps.final (haround.portage ▸ hd) (haround.session List.mem_cons_self) hebuild hend hlast,
        hlock⟩
    · refine ⟨fun hf => ?_, fun _ => ?_⟩
      · obtain ⟨-, other, ho, hdirty'⟩ := hf
        obtain rfl := Option.some.inj (hs.symm.trans ho)
        exact absurd hdirty' hdirty
      · obtain ⟨-, rfl⟩ := pure_ok.mp hif
        refine hrest.final hd List.mem_cons_self ?_ hend hc
        rw [ebuildAt, hs', Option.map_some]

theorem getResolved_keepsUse (e : Ebuild) {fuel x y : Nat} {s t : Emerge} (hy : y ∈ s.resolveSession)
    (h : getResolved (regenerate selectAtom fuel) x s = (.ok (), t)) : KeepsUse e y s t := by
  by_cases hx : x ∈ s.resolveSession
  · rw [getResolved_of_mem _ hx] at h
    rw [← (Prod.mk.inj h).2]
    exact keepsUse_refl s
  · rw [getResolved_of_notMem _ hx] at h
    have hopened : Around s { s with resolveSession := x :: s.resolveSession } :=
      ⟨rfl, rfl, List.Subset.refl _, List.subset_cons_self _ _⟩
    refine keepsUse_trans _ _ _ (hopened.keepsUse_same e rfl) ((regenerate_keepsUse fuel ?_).ok h)
    rintro rfl
    exact hx hy

namespace AtomUse

/-- What a use dependency says of a flag of the chosen ebuild and that of the parent. -/
def Holds (child parent : Bool) : AtomUse → Prop
  | .enable => child = true
  | .disable => child = false
  | .enableIfOn => parent = true → child = true
  | .disableIfOff => parent = false → child = false
  | .equal => child = parent
  | .opposite => child ≠ parent

/-- Whether it looks at the parent. -/
def relates : AtomUse → Bool
  | .enable | .disable => false
  | .enableIfOn | .disableIfOff | .equal | .opposite => true

end AtomUse

namespace Emerge

/-- What a flag of the chosen ebuild is going to be: the state that waits for it,
where its queue is going to be flushed. -/
def due (self : Emerge) (x : Nat) (uses : List AtomFlag) (name : List Char) : Bool :=
  match self.selected[x]? with
  | none => false
  | some selected =>
    if x ∉ self.resolveSession ∧
        (selected.isDirty || uses.any (self.schedules x)) = true then
      lastOf selected.flags name (self.given x uses name)
    else self.given x uses name

end Emerge

/-- The requirements of an atom, and the ebuild chosen for it regenerated: its flags
are what is due, and what the hooks enforce. -/
theorem requireAll_getResolved {fuel x : Nat} {uses : List AtomFlag} {s t u : Emerge}
    {selected : SelectedEbuild} (hs : s.selected[x]? = some selected)
    (hnames : ∀ use ∈ uses, s.OwnName x use.name) (hd : s.portage.Distinct)
    (hend : u.ebuildAt x = s.ebuildAt x) (hrequire : uses.forM (requireUse x) s = (.ok (), t))
    (h : getResolved (regenerate selectAtom fuel) x t = (.ok (), u)) {use : AtomFlag}
    (huse : use ∈ uses) :
    u.isOn x use.name = s.due x uses use.name ∧
      ∀ v, use.option.enforced (s.given x uses use.name) = some v → u.isOn x use.name = v := by
  have hrequired := requireAll_ok hnames ⟨selected, hs, rfl⟩ hrequire
  obtain ⟨queue, ⟨selected', ht, hframe⟩, hqueue⟩ := hrequired.queue
  have hflags : selected'.flags = selected.flags ++ queue := congrArg SelectedEbuild.flags hframe
  have hdirty : selected'.isDirty = (selected.isDirty || uses.any (s.schedules x)) :=
    congrArg SelectedEbuild.isDirty hframe
  have hsession := hrequired.grown.use.resolveSession
  have hflushes : t.Flushes x ↔ x ∉ s.resolveSession ∧
      (selected.isDirty || uses.any (s.schedules x)) = true := by
    rw [Flushes, ← hsession, ← hdirty]
    refine and_congr_right fun _ => ⟨?_, fun hd => ⟨selected', ht, hd⟩⟩
    rintro ⟨other, ho, hd⟩
    rwa [Option.some.inj (ht.symm.trans ho)]
  have hend' : u.ebuildAt x = some selected'.ebuild := by
    rw [hend, ← hrequired.grown.use.ebuildAt, ebuildAt, ht, Option.map_some]
  obtain ⟨hflush, hkeep⟩ := getResolved_flags ht (hrequired.grown.use.around.portage ▸ hd) hend' h
    (hrequired.known use huse)
  -- a lock on the flag keeps the queue from changing it
  have hlocked : some (s.given x uses use.name) ∈ t.locks x (some use.name) → t.Flushes x →
      lastOf selected.flags use.name (s.given x uses use.name) = s.given x uses use.name ∧
        lastOf selected'.flags use.name (s.given x uses use.name) = s.given x uses use.name := by
    intro hmem hf
    have hall := (hflush hf).2 hmem
    refine ⟨lastOf_of_forall fun q hq => hall q ?_, lastOf_of_forall hall⟩
    rw [hflags]
    exact List.mem_append_left _ hq
  refine ⟨?_, fun v hv => ?_⟩
  · rw [due, hs]
    simp only
    split_ifs with hf
    · have hf' := hflushes.mpr hf
      rw [Emerge.isOn, (hflush hf').1, Option.getD_some]
      by_cases hq : ∃ q ∈ queue, q.name = use.name
      · obtain ⟨q, hmem, hn⟩ := hq
        obtain ⟨other, -, -, hstate, hlock⟩ := hqueue q hmem
        rw [hstate, hn] at hlock
        rw [(hlocked hlock hf').1, (hlocked hlock hf').2]
      · rw [hflags, lastOf, List.foldl_append]
        exact lastOf_of_forall fun q hmem hn => absurd ⟨q, hmem, hn⟩ hq
    · rw [Emerge.isOn, hkeep fun hf' => hf (hflushes.mp hf'), Option.getD_some]
  · obtain ⟨hval, hlock⟩ := hrequired.enforced use huse v hv
    rw [← hval] at hlock ⊢
    by_cases hf : t.Flushes x
    · rw [Emerge.isOn, (hflush hf).1, (hlocked hlock hf).2, Option.getD_some]
    · rw [Emerge.isOn, hkeep hf, Option.getD_some]

/-- The use dependencies of an atom hold after the resolution of the atom and of the
ebuild chosen for it if and only if the ones that look at the parent hold before,
of the flags that are due. -/
theorem useDependencies_hold_iff {fuel parent sel : Nat} {useOperator : UseOperator}
    {useCondition : Nat} {atom : Atom} {children : DependTree} {resolved : Option Generator}
    {s chosen t u : Emerge} (hblock : atom.blocks = .none)
    (hselect : selectAtom (some parent) atom s = .ok (some sel, chosen))
    (hnames : ∀ use ∈ atom.useflags, chosen.OwnName sel use.name)
    (hparent : ∀ use ∈ atom.useflags, use.option.relates = true → chosen.HasUse parent use.name)
    (hdistinct : chosen.portage.Distinct) (hsession : parent ∈ chosen.resolveSession)
    (hresolve : resolveSingle selectAtom (some parent) useOperator useCondition (some atom) children s =
      (.ok resolved, t))
    (hregenerate : getResolved (regenerate selectAtom fuel) sel t = (.ok (), u))
    (hsel : u.ebuildAt sel = chosen.ebuildAt sel) (hpar : u.ebuildAt parent = chosen.ebuildAt parent) :
    (∀ use ∈ atom.useflags,
        use.option.Holds (u.isOn sel use.name) (u.isOn parent use.name)) ↔
      ∀ use ∈ atom.useflags, use.option.relates = true →
        use.option.Holds (chosen.due sel atom.useflags use.name) (chosen.isOn parent use.name) := by
  simp only [resolveSingle, hblock, ne_eq, not_true, if_false] at hresolve
  obtain ⟨found, v, hfound, hrest⟩ := bind_ok.mp hresolve
  rw [ofCall_ok, hselect] at hfound
  obtain ⟨rfl, rfl⟩ := Prod.mk.inj (Except.ok.inj hfound)
  obtain ⟨_, w, hrequire, hend⟩ := bind_ok.mp hrest
  obtain ⟨-, rfl⟩ := pure_ok.mp hend
  refine forall_congr' fun use => forall_congr' fun huse => ?_
  obtain ⟨selected, hs⟩ : ∃ selected, chosen.selected[sel]? = some selected := by
    obtain ⟨first, back, hl⟩ := List.exists_cons_of_ne_nil (List.ne_nil_of_mem huse)
    rw [hl] at hrequire
    obtain ⟨_, hone, -⟩ := forM_ok.mp hrequire
    obtain ⟨_, _, hflags, -⟩ := bind_ok.mp hone
    obtain ⟨-, selected, hs, -⟩ := useFlags_ok hflags
    exact ⟨selected, hs⟩
  have hgrown := (requireAll_ok hnames ⟨selected, hs, rfl⟩ hrequire).grown
  have hparents (hrelates : use.option.relates = true) : u.isOn parent use.name = chosen.isOn parent use.name := by
    have hp := hparent use huse hrelates
    obtain ⟨flags', -, hat', -⟩ := hp
    obtain ⟨selected', hs', -⟩ := Option.map_eq_some_iff.mp hat'
    have hebuild : chosen.ebuildAt parent = some selected'.ebuild := by
      rw [ebuildAt, hs', Option.map_some]
    have hmem : parent ∈ w.resolveSession := hgrown.use.around.session hsession
    have hkeeps := getResolved_keepsUse selected'.ebuild hmem hregenerate
    have hfinal : u.useState parent use.name = some (chosen.isOn parent use.name) := by
      refine hkeeps.final (hgrown.use.around.portage ▸ hdistinct) hmem ?_ (hpar.trans hebuild) ?_
      · rw [hgrown.use.ebuildAt, hebuild]
      · exact hgrown.state _ _ _ (hparent use huse hrelates).isOn
    rw [Emerge.isOn, hfinal, Option.getD_some]
  obtain ⟨hdue, henforced⟩ := requireAll_getResolved hs hnames hdistinct hsel hrequire hregenerate huse
  cases hrelates : use.option.relates with
  | true =>
    rw [hdue, hparents hrelates]
    exact ⟨fun hholds _ => hholds, fun hholds => hholds rfl⟩
  | false =>
    refine ⟨fun _ hfalse => absurd hfalse (by simp), fun _ => ?_⟩
    cases hoption : use.option with
    | enable => exact henforced true (by rw [hoption]; rfl)
    | disable => exact henforced false (by rw [hoption]; rfl)
    | enableIfOn | disableIfOff | equal | opposite => exact absurd hrelates (by rw [hoption]; decide)

/-- `app-misc/foo[f?]` -/
def questionAtom : Atom :=
  pairAtom "foo" [{ name := ['f'], option := .enableIfOn, dflt := .none }]

/-- `app-misc/bar` has `f` on and this DEPEND, and `app-misc/foo` has `f` on or not. -/
def pairEmerge (foo : Bool) (depend : DependTree) : Emerge :=
  Emerge.init pairRepository UseHeap.init (fun addr =>
    if addr = 1 then { fields := { pairFile true with depend := depend }, ok := true }
    else { fields := pairFile foo, ok := true }) []

/-- `app-misc/bar`, which depends on the atom, is resolved after `app-misc/foo`. -/
def pairStart (foo : Bool) : Emerge :=
  [EmergeCall.selectAtom none (pairAtom "foo" []), .getResolved 1 0,
    .selectAtom none (pairAtom "bar" []), .getResolved 2 1].foldl (EmergeCall.step search)
      (pairEmerge foo (.node .disable 0 (some questionAtom) .null .null))

/-- `app-misc/bar` is resolved, and `app-misc/foo` has not been selected before. -/
def freshStart : Emerge :=
  [EmergeCall.selectAtom none (pairAtom "bar" []), .getResolved 1 0].foldl (EmergeCall.step search)
    (pairEmerge true .null)

theorem run_value {α : Type} {c : Resolution α} {s : Emerge} {a : α} (h : (c s).1.toOption = some a) :
    c s = (.ok a, (c s).2) := by
  rcases hc : c s with ⟨r, t⟩
  rw [hc] at h
  cases r with
  | error e => exact absurd h (by simp [Except.toOption])
  | ok b => rw [Option.some.inj h]

theorem hasUse_of_getUse {self : Emerge} {x : Nat} {name : List Char}
    (h : (self.useAt x).bind (fun flags => (flags.getUse (some name)).toOption.map UseFlag.name) =
      some name) : self.HasUse x name := by
  obtain ⟨flags, hat, huse⟩ := Option.bind_eq_some_iff.mp h
  obtain ⟨use, hget, hname⟩ := Option.map_eq_some_iff.mp huse
  refine ⟨flags, use, hat, ?_, hname⟩
  cases hr : flags.getUse (some name) with
  | error e => exact absurd hget (by rw [hr]; simp [Except.toOption])
  | ok other =>
    rw [hr] at hget
    exact congrArg Except.ok (Option.some.inj hget)

theorem ownName_of_getUse {self : Emerge} {x : Nat} {name : List Char}
    (h : ∀ use ∈ (self.useAt x).bind fun flags => (flags.getUse (some name)).toOption, use.name = name) :
    self.OwnName x name := by
  intro flags use hat hget
  refine h use (Option.bind_eq_some_iff.mpr ⟨flags, hat, ?_⟩)
  rw [hget]
  rfl

/-- After the selection of `app-misc/foo`, for the atom of `app-misc/bar`. -/
def pairChosen (parent : Nat) (s : Emerge) : Emerge := (ofCall (selectAtom (some parent) questionAtom) s).2

def pairResolved (parent : Nat) (s : Emerge) : Emerge :=
  (resolveSingle selectAtom (some parent) .disable 0 (some questionAtom) .null s).2

def pairRegenerated (parent sel : Nat) (s : Emerge) : Emerge :=
  (getResolved (regenerate selectAtom 1) sel (pairResolved parent s)).2

/-- The atom is resolved for the parent, and after that the object selected for it. -/
structure PairRun (parent sel : Nat) (s : Emerge) : Prop where
  select : selectAtom (some parent) questionAtom s = .ok (some sel, pairChosen parent s)
  resolve : ∃ resolved, resolveSingle selectAtom (some parent) .disable 0 (some questionAtom) .null s =
    (.ok resolved, pairResolved parent s)
  regenerate : getResolved (regenerate selectAtom 1) sel (pairResolved parent s) =
    (.ok (), pairRegenerated parent sel s)

theorem pairRun_of_returns {parent sel : Nat} {s : Emerge}
    (h : (ofCall (selectAtom (some parent) questionAtom) s).1.toOption = some (some sel) ∧
      (resolveSingle selectAtom (some parent) .disable 0 (some questionAtom) .null s).1.isOk = true ∧
      (getResolved (regenerate selectAtom 1) sel (pairResolved parent s)).1.isOk = true) : PairRun parent sel s := by
  obtain ⟨hselect, hresolve, hregenerate⟩ := h
  obtain ⟨⟨⟩, hregenerated⟩ := run_ok hregenerate
  exact ⟨ofCall_ok.mp (run_value hselect), run_ok hresolve, hregenerated⟩

/-- With `f` on in both it stays on, but not where the metadata of `app-misc/foo` have not been read
before. -/
theorem useDependencies_hold_iff_foo :
    AtomUse.enableIfOn.Holds ((pairRegenerated 1 0 (pairStart true)).isOn 0 ['f'])
        ((pairRegenerated 1 0 (pairStart true)).isOn 1 ['f']) ∧
      ¬ AtomUse.enableIfOn.Holds ((pairRegenerated 0 1 freshStart).isOn 1 ['f'])
        ((pairRegenerated 0 1 freshStart).isOn 0 ['f']) := by
  constructor
  · have hrun : PairRun 1 0 (pairStart true) := pairRun_of_returns (by decide +kernel)
    obtain ⟨resolved, hresolve⟩ := hrun.resolve
    have hdistinct : (pairChosen 1 (pairStart true)).portage.Distinct := by
      rw [Portage.Distinct]
      decide +kernel
    have hname : (pairChosen 1 (pairStart true)).OwnName 0 ['f'] := ownName_of_getUse (by decide +kernel)
    have hparent : (pairChosen 1 (pairStart true)).HasUse 1 ['f'] := hasUse_of_getUse (by decide +kernel)
    have hiff := useDependencies_hold_iff rfl hrun.select (List.forall_mem_singleton.mpr hname)
      (List.forall_mem_singleton.mpr fun _ => hparent) hdistinct (by decide +kernel) hresolve hrun.regenerate
      (by decide +kernel) (by decide +kernel)
    simp only [questionAtom, pairAtom, List.forall_mem_singleton] at hiff
    have hdue : (pairChosen 1 (pairStart true)).due 0 questionAtom.useflags ['f'] = true := by decide +kernel
    exact hiff.mpr fun _ _ => hdue
  · have hrun : PairRun 0 1 freshStart := pairRun_of_returns (by decide +kernel)
    obtain ⟨resolved, hresolve⟩ := hrun.resolve
    have hdistinct : (pairChosen 0 freshStart).portage.Distinct := by
      rw [Portage.Distinct]
      decide +kernel
    have hname : (pairChosen 0 freshStart).OwnName 1 ['f'] := ownName_of_getUse (by decide +kernel)
    have hparent : (pairChosen 0 freshStart).HasUse 0 ['f'] := hasUse_of_getUse (by decide +kernel)
    have hiff := useDependencies_hold_iff rfl hrun.select (List.forall_mem_singleton.mpr hname)
      (List.forall_mem_singleton.mpr fun _ => hparent) hdistinct (by decide +kernel) hresolve hrun.regenerate
      (by decide +kernel) (by decide +kernel)
    simp only [questionAtom, pairAtom, List.forall_mem_singleton] at hiff
    have hdue : (pairChosen 0 freshStart).due 1 questionAtom.useflags ['f'] = false ∧
        (pairChosen 0 freshStart).isOn 0 ['f'] = true := by
      decide +kernel
    intro hholds
    exact absurd (hdue.1.symm.trans (hiff.mp hholds rfl hdue.2)) (by decide)

/-- With `f` on in the parent only, nothing is done about `[f?]`. -/
theorem question_not_enforced : ¬ ∀ (fuel parent sel : Nat) (useOperator : UseOperator)
    (useCondition : Nat) (atom : Atom) (children : DependTree) (resolved : Option Generator)
    (s chosen t u : Emerge), atom.blocks = .none →
    selectAtom (some parent) atom s = .ok (some sel, chosen) →
    (∀ use ∈ atom.useflags, chosen.HasUse sel use.name) →
    resolveSingle selectAtom (some parent) useOperator useCondition (some atom) children s =
      (.ok resolved, t) →
    getResolved (regenerate selectAtom fuel) sel t = (.ok (), u) →
      ∀ use ∈ atom.useflags,
        use.option.Holds (u.isOn sel use.name) (u.isOn parent use.name) := by
  intro hall
  have hrun : PairRun 1 0 (pairStart false) := pairRun_of_returns (by decide +kernel)
  obtain ⟨resolved, hresolve⟩ := hrun.resolve
  have hchild : (pairChosen 1 (pairStart false)).HasUse 0 ['f'] := hasUse_of_getUse (by decide +kernel)
  have hholds := hall 1 1 0 .disable 0 questionAtom .null resolved _ _ _ _ rfl hrun.select
    (List.forall_mem_singleton.mpr hchild) hresolve hrun.regenerate _ (List.mem_singleton.mpr rfl)
  have hends : (pairRegenerated 1 0 (pairStart false)).isOn 1 ['f'] = true ∧
      (pairRegenerated 1 0 (pairStart false)).isOn 0 ['f'] = false := by
    decide +kernel
  exact absurd (hends.2.symm.trans (hholds hends.1)) (by decide)

end AutoGentoo
