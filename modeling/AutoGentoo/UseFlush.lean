import AutoGentoo.ExceptLog
import AutoGentoo.UseRequirements

/-! What `flush_use` makes of a queue: the states of the flags, and which hooks run. -/

namespace AutoGentoo

open StateExcept Emerge

/-- A call of `run_hook`: the list of the hook, its place in it, the argument. -/
structure HookRun where
  name : Option (List Char)
  index : Nat
  arg : Option Bool
  raised : Bool
  deriving DecidableEq, Repr

/-! The functions that run hooks, with a log of the calls. -/

def runHookAtLogged (sel : Nat) (name : Option (List Char)) (arg : Option Bool) (i : Nat) :
    Logged Emerge Stop HookRun Unit := do
  let flags ← unlogged (useFlags sel)
  let selected ← unlogged (getSel sel)
  match (selected.hooks name)[i]? with
  | none => pure ()
  | some hook =>
    record { name := name, index := i, arg := arg, raised := !(hook.runHook flags arg).isOk }
    let hook ← unlogged (raising (hook.runHook flags arg))
    unlogged (modifySel sel fun s => s.setHooks name ((s.hooks name).set i hook))

def runHooksLogged (sel : Nat) (name : Option (List Char)) (arg : Option Bool) :
    Logged Emerge Stop HookRun Unit := do
  let selected ← unlogged (getSel sel)
  (List.range (selected.hooks name).length).forM (runHookAtLogged sel name arg)

def flushOneLogged (sel : Nat) (useflag : UseFlag) : Logged Emerge Stop HookRun Unit := do
  unlogged (modifySel sel fun s => { s with flags := s.flags.tail })
  let flags ← unlogged (useFlags sel)
  let current ← unlogged (raising (flags.getUse (some useflag.name)))
  if current.state = useflag.state then pure ()
  else
    unlogged (modifySel sel fun s =>
      { s with useflags := Dict.set s.useflags useflag.name useflag })
    runHooksLogged sel (some useflag.name) (some useflag.state)
    runHooksLogged sel none none

def flushUseLogged (sel : Nat) : Logged Emerge Stop HookRun Unit := do
  let selected ← unlogged (getSel sel)
  selected.flags.forM (flushOneLogged sel)

theorem runHookAt_erases (sel : Nat) (name : Option (List Char)) (arg : Option Bool) (i : Nat) :
    Erases (runHookAtLogged sel name arg i) (runHookAt sel name arg i) := by
  refine (erases_unlogged _).bind fun flags => (erases_unlogged _).bind fun selected => ?_
  cases (selected.hooks name)[i]? with
  | none => exact erases_pure _
  | some hook =>
    exact Erases.record_bind _ ((erases_unlogged _).bind fun hook' => erases_unlogged _)

theorem runHooks_erases (sel : Nat) (name : Option (List Char)) (arg : Option Bool) :
    Erases (runHooksLogged sel name arg) (runHooks sel name arg) :=
  (erases_unlogged _).bind fun _ => Erases.forM (runHookAt_erases sel name arg) _

theorem flushOne_erases (sel : Nat) (useflag : UseFlag) :
    Erases (flushOneLogged sel useflag) (flushOne sel useflag) := by
  refine (erases_unlogged _).bind fun _ => (erases_unlogged _).bind fun flags => ?_
  refine (erases_unlogged _).bind fun current => ?_
  split_ifs
  · exact erases_pure _
  · refine (erases_unlogged _).bind fun _ => ?_
    exact (runHooks_erases sel _ _).bind fun _ => runHooks_erases sel _ _

/-- The log aside it is `flush_use`. -/
theorem flushUse_erases (sel : Nat) : Erases (flushUseLogged sel) (flushUse sel) :=
  (erases_unlogged _).bind fun _ => Erases.forM (flushOne_erases sel) _

/-- The calls of the hooks in one list, each once and in their order. -/
def hookRuns (name : Option (List Char)) (arg : Option Bool) (n : Nat) : List HookRun :=
  (List.range n).map fun i => { name := name, index := i, arg := arg, raised := false }

/-- The calls for a flag that changes, of so many hooks in each list: the hooks of
the flag get its new state, the global ones nothing. -/
def changeRuns (count : Option (List Char) → Nat) (useflag : UseFlag) : List HookRun :=
  hookRuns (some useflag.name) (some useflag.state) (count (some useflag.name)) ++
    hookRuns none none (count none)

def SelectedEbuild.hookCount (self : SelectedEbuild) (name : Option (List Char)) : Nat :=
  (self.hooks name).length

/-- The entries of a queue that change the state of their flag. -/
def changesOf (state : List Char → Option Bool) : List UseFlag → List UseFlag
  | [] => []
  | q :: queue =>
    (if state q.name = some q.state then [] else [q]) ++
      changesOf (fun name => if q.name = name then some q.state else state name) queue

section Flush

variable {sel : Nat} {s : Emerge}

/-- A raising call of a hook stops everything. -/
abbrev HookWrites (d : Logged Emerge Stop HookRun Unit) (s : Emerge) (entries : List HookRun) : Prop :=
  Writes (fun r => r.raised = true) d s entries

theorem runHookAt_writes {selected : SelectedEbuild} (hs : s.selected[sel]? = some selected)
    {name : Option (List Char)} (arg : Option Bool) {i : Nat} (hi : i < (selected.hooks name).length) :
    HookWrites (runHookAtLogged sel name arg i) s
      [{ name := name, index := i, arg := arg, raised := false }] := by
  refine Writes.unlogged_bind (useFlags_of_get hs) ?_
  refine Writes.unlogged_bind (getSel_ok.mpr ⟨hs, rfl⟩) ?_
  simp only [List.getElem?_eq_getElem hi]
  intro l
  cases hrun : (selected.hooks name)[i].runHook
      { useflags := selected.useflags, iuse := (s.metadata selected.ebuild).iuse } arg with
  | ok hook' => exact .inl ⟨⟨(), rfl⟩, rfl⟩
  | error e => exact .inr ⟨⟨_, rfl⟩, _, rfl, _, List.mem_singleton.mpr rfl, rfl⟩

/-- How many hooks each list of an object has. -/
def HasHooks (sel : Nat) (count : Option (List Char) → Nat) (s : Emerge) : Prop :=
  ∃ selected, s.selected[sel]? = some selected ∧ selected.hookCount = count

variable {count : Option (List Char) → Nat}

theorem HasHooks.keep (h : HasHooks sel count s) {t : Emerge} (hlocks : SameLocks sel s t)
    (huse : SameButUse s t) : HasHooks sel count t := by
  obtain ⟨selected, hs, rfl⟩ := h
  have hebuild := huse.ebuildAt sel
  rw [ebuildAt, ebuildAt, hs, Option.map_some] at hebuild
  obtain ⟨selected', ht, -⟩ := Option.map_eq_some_iff.mp hebuild
  refine ⟨selected', ht, funext fun name => ?_⟩
  have hlen := congrArg List.length (hlocks name)
  rwa [locks_of_get hs, locks_of_get ht, List.length_map, List.length_map] at hlen

theorem runHooks_writes (h : HasHooks sel count s) (name : Option (List Char)) (arg : Option Bool) :
    HookWrites (runHooksLogged sel name arg) s (hookRuns name arg (count name)) := by
  have hh := h
  obtain ⟨selected, hs, rfl⟩ := h
  refine Writes.unlogged_bind (getSel_ok.mpr ⟨hs, rfl⟩) ?_
  rw [hookRuns, List.map_eq_flatMap]
  refine writes_forM (runHookAt_erases sel name arg) (fun i hi t ht => ⟨?_, fun u hu => ?_⟩) hh
  · obtain ⟨selected', ht', hcount⟩ := ht
    apply runHookAt_writes ht'
    have hlt := List.mem_range.mp hi
    rwa [← SelectedEbuild.hookCount, hcount]
  · exact ht.keep (runHookAt_locks hu).1 ((runHookAt_useOnly sel name arg i).same.ok hu)

theorem flushOne_writes (h : HasHooks sel count s) (useflag : UseFlag) {state : Bool}
    (hstate : s.useState sel useflag.name = some state) :
    HookWrites (flushOneLogged sel useflag) s
      (if s.useState sel useflag.name = some useflag.state then [] else changeRuns count useflag) := by
  obtain ⟨selected, hs, hcount⟩ := h
  let pop (x : SelectedEbuild) : SelectedEbuild := { x with flags := x.flags.tail }
  have hpop : (s.atSel sel pop).selected[sel]? = some (pop selected) := by
    rw [atSel_self, hs]
    rfl
  refine Writes.unlogged_bind (t := s.atSel sel pop) rfl ?_
  refine Writes.unlogged_bind (useFlags_of_get hpop) ?_
  rw [useState_of_get hs] at hstate ⊢
  obtain ⟨use, hget, huse⟩ := UseFlags.getUse_of_stateOf hstate
  refine Writes.unlogged_bind (raising_ok.mpr ⟨hget, rfl⟩) ?_
  simp only [hstate, huse, Option.some.injEq]
  by_cases hsame : state = useflag.state
  · rw [if_pos hsame, if_pos hsame]
    exact writes_pure _ _
  · rw [if_neg hsame, if_neg hsame]
    let put (x : SelectedEbuild) : SelectedEbuild :=
      { x with useflags := Dict.set x.useflags useflag.name useflag }
    have hput : HasHooks sel count ((s.atSel sel pop).atSel sel put) := by
      refine ⟨put (pop selected), by rw [atSel_self, hpop]; rfl, ?_⟩
      rw [← hcount]
      funext name
      cases name <;> rfl
    refine Writes.unlogged_bind (t := (s.atSel sel pop).atSel sel put) rfl ?_
    refine Writes.bind (runHooks_erases sel _ _) (runHooks_writes hput _ _) fun _ t ht => ?_
    exact runHooks_writes (hput.keep (runHooks_locks ht).1 ((runHooks_useOnly sel _ _).same.ok ht)) _ _

theorem flushQueue_writes (h : HasHooks sel count s) {queue : List UseFlag}
    (hhas : ∀ q ∈ queue, ∃ state, s.useState sel q.name = some state) :
    HookWrites (queue.forM (flushOneLogged sel)) s
      ((changesOf (s.useState sel) queue).flatMap (changeRuns count)) := by
  induction queue generalizing s with
  | nil => exact writes_pure _ _
  | cons q queue ih =>
    obtain ⟨state, hstate⟩ := hhas q List.mem_cons_self
    have hfirst : (if s.useState sel q.name = some q.state then [] else changeRuns count q) =
        (if s.useState sel q.name = some q.state then [] else [q]).flatMap (changeRuns count) := by
      split_ifs
      · rfl
      · rw [List.flatMap_cons, List.flatMap_nil, List.append_nil]
    rw [changesOf, List.flatMap_append, ← hfirst]
    refine Writes.bind (flushOne_erases sel q) (flushOne_writes h q hstate) fun _ t ht => ?_
    obtain ⟨hlocks, hstates, -⟩ := flushOne_ok ht
    have hnext : t.useState sel = fun name => if q.name = name then some q.state else s.useState sel name := by
      funext name
      rw [hstates]
      by_cases hn : q.name = name
      · simp only [← hn, hstate, Option.map_some, if_true]
      · simp only [if_neg hn, Option.map_id']
    rw [← hnext]
    refine ih (h.keep hlocks ((flushOne_useOnly sel q).same.ok ht)) fun p hp => ?_
    rw [hnext]
    by_cases hn : q.name = p.name
    · exact ⟨q.state, if_pos hn⟩
    · simp only [if_neg hn]
      exact hhas p (List.mem_cons_of_mem _ hp)

theorem flushUse_empties {t : Emerge} {selected : SelectedEbuild} (hs : s.selected[sel]? = some selected)
    (h : flushUse sel s = (.ok (), t)) :
    ∃ selected', t.selected[sel]? = some selected' ∧ selected'.flags = [] := by
  obtain ⟨selected', r, hget, hloop⟩ := bind_ok.mp h
  obtain ⟨hs', rfl⟩ := getSel_ok.mp hget
  obtain rfl := Option.some.inj (hs.symm.trans hs')
  have hqueue : r.withQueue sel (selected.flags ++ []) = r := by
    rw [List.append_nil]
    exact withQueue_self hs rfl
  rcases hturns : selected.flags.forM (flushTurn sel) r with ⟨result, u⟩
  obtain ⟨queue, hnil, hrun⟩ := flushAll_withQueue selected.flags [] r result u hturns
  rw [hqueue, hloop] at hrun
  obtain ⟨hok, rfl⟩ := Prod.mk.inj hrun
  obtain rfl := hnil hok.symm
  have hebuild := (flushUse_useOnly sel).same.ok h |>.ebuildAt sel
  rw [ebuildAt, ebuildAt, hs, Option.map_some] at hebuild
  obtain ⟨selected', ht, -⟩ := Option.map_eq_some_iff.mp hebuild
  refine ⟨selected', ht, ?_⟩
  rw [Emerge.withQueue, atSel_self] at ht
  obtain ⟨other, -, rfl⟩ := Option.map_eq_some_iff.mp ht
  rfl

/-- Scheduling puts the flags behind those that wait already. -/
theorem scheduled_get {selected : SelectedEbuild} (hs : s.selected[sel]? = some selected)
    (calls : List UseFlag) : ∃ t selected', calls.forM (scheduleUse sel) s = (.ok (), t) ∧
      t.selected[sel]? = some selected' ∧ selected'.flags = selected.flags ++ calls ∧
      selected'.hookCount = selected.hookCount ∧ t.useState sel = s.useState sel := by
  induction calls generalizing s selected with
  | nil => exact ⟨s, selected, rfl, hs, (List.append_nil _).symm, rfl, rfl⟩
  | cons q calls ih =>
    let put (x : SelectedEbuild) : SelectedEbuild := { x with flags := x.flags ++ [q], isDirty := true }
    have hput : (s.atSel sel put).selected[sel]? = some (put selected) := by
      rw [atSel_self, hs]
      rfl
    obtain ⟨t, selected', hrun, ht, hflags, hcount, hstate⟩ := ih hput
    refine ⟨t, selected', hrun, ht, ?_, ?_, ?_⟩
    · rw [hflags, List.append_assoc, List.singleton_append]
    · rw [hcount]
      funext name
      cases name <;> rfl
    · rw [hstate]
      funext name
      rw [useState_of_get hput, useState_of_get hs]
      rfl

end Flush

theorem lastOf_append {front back : List UseFlag} {q : UseFlag} (h : ∀ p ∈ back, p.name ≠ q.name)
    (state : Bool) : lastOf (front ++ q :: back) q.name state = q.state := by
  rw [lastOf, List.foldl_append, List.foldl_cons, if_pos rfl]
  exact lastOf_of_forall fun p hp hn => absurd hn (h p hp)

/-- Where no hook raises, `flush_use` comes back with an empty queue and every flag in
its last scheduled state, and the hooks have run for the changes, each once and in
order. -/
theorem scheduled_flush {sel : Nat} {calls : List UseFlag} {s start : Emerge} {selected : SelectedEbuild}
    (hs : s.selected[sel]? = some selected) (hstart : calls.forM (scheduleUse sel) s = (.ok (), start))
    (hhas : ∀ q ∈ selected.flags ++ calls, ∃ state, s.useState sel q.name = some state)
    (hquiet : ∀ r ∈ (flushUseLogged sel (start, [])).2.2, r.raised = false) :
    ∃ t, flushUse sel start = (.ok (), t) ∧
      (∃ selected', t.selected[sel]? = some selected' ∧ selected'.flags = []) ∧
      (∀ front q back, selected.flags ++ calls = front ++ q :: back → (∀ p ∈ back, p.name ≠ q.name) →
        t.useState sel q.name = some q.state) ∧
      (∀ name, (∀ q ∈ selected.flags ++ calls, q.name ≠ name) →
        t.useState sel name = s.useState sel name) ∧
      flushUseLogged sel (start, []) = (.ok (), t,
        (changesOf (s.useState sel) (selected.flags ++ calls)).flatMap (changeRuns selected.hookCount)) := by
  obtain ⟨start', selected', hrun, ht, hflags, hcount, hstate⟩ := scheduled_get hs calls
  obtain rfl : start' = start := (Prod.mk.inj (hrun.symm.trans hstart)).2
  have hwrites : HookWrites (flushUseLogged sel) start'
      ((changesOf (s.useState sel) (selected.flags ++ calls)).flatMap (changeRuns selected.hookCount)) := by
    refine Writes.unlogged_bind (getSel_ok.mpr ⟨ht, rfl⟩) ?_
    rw [hflags, ← hstate]
    refine flushQueue_writes ⟨selected', ht, hcount⟩ fun q hq => ?_
    rw [hstate]
    exact hhas q hq
  rcases hwrites [] with ⟨⟨⟨⟩, hok⟩, hlog⟩ | ⟨-, more, hlog, r, hr, hraised⟩
  · have herase := flushUse_erases sel start' []
    rw [hok] at herase
    have hstates := (flushUse_ok ht herase.symm).2.1
    refine ⟨_, herase.symm, flushUse_empties ht herase.symm, ?_, ?_, ?_⟩
    · intro front q back hqueue hback
      obtain ⟨state, hq⟩ := hhas q (by rw [hqueue]; simp)
      rw [hstates, hflags, hqueue, hstate, hq, Option.map_some, lastOf_append hback]
    · intro name hname
      rw [hstates, hflags, hstate]
      have hlast : lastOf (selected.flags ++ calls) name = id :=
        funext fun state => lastOf_of_forall fun q hq hn => absurd hn (hname q hq)
      rw [hlast, Option.map_id]
      rfl
    · rw [List.nil_append] at hlog
      rw [← hlog, ← hok]
      rfl
  · rw [hlog, List.nil_append] at hquiet
    exact absurd (hquiet r hr) (by simp [hraised])

/-- `f` off, with a conditional on it and a hook for all flags. -/
def hookedStart : Emerge :=
  let onF : UseFlag := { name := ['f'], state := true }
  ([(some onF, Hookable.useConditional onF .null false false),
    (none, Hookable.useSelection onF .enableIfOn false false)].forM fun p =>
      addUseHook 0 p.1 p.2 : Resolution Unit) (flagStart false []) |>.2

/-- `f` is scheduled on twice, then off. -/
def onOnOff : List UseFlag :=
  [{ name := ['f'], state := true }, { name := ['f'], state := true }, { name := ['f'], state := false }]

def hookedScheduled : Emerge := (onOnOff.forM (scheduleUse 0) hookedStart).2

/-- The hooks run for two changes. -/
theorem scheduled_flush_twice : ∃ t, flushUse 0 hookedScheduled = (.ok (), t) ∧
    t.useState 0 ['f'] = some false ∧
    (flushUseLogged 0 (hookedScheduled, [])).2.2.map HookRun.arg = [some true, none, some false, none] := by
  have hlog : (flushUseLogged 0 (hookedScheduled, [])).2.2.map HookRun.arg =
      [some true, none, some false, none] := by
    decide +kernel
  have hsome : (hookedStart.selected[0]?).isSome = true := by decide +kernel
  obtain ⟨selected, hs⟩ := Option.isSome_iff_exists.mp hsome
  have hempty : (hookedStart.selected[0]?).map SelectedEbuild.flags = some [] := by decide +kernel
  have hflags : selected.flags = [] := by
    rw [hs, Option.map_some] at hempty
    exact Option.some.inj hempty
  have hhas : ∀ q ∈ selected.flags ++ onOnOff, ∃ state, hookedStart.useState 0 q.name = some state := by
    have hnames : ∀ q ∈ onOnOff, hookedStart.useState 0 q.name = some false := by decide +kernel
    intro q hq
    rw [hflags, List.nil_append] at hq
    exact ⟨false, hnames q hq⟩
  obtain ⟨t, hrun, -, hlast, -, -⟩ := scheduled_flush hs
    (run_value (c := onOnOff.forM (scheduleUse 0)) (by decide +kernel)) hhas (by decide +kernel)
  refine ⟨t, hrun, ?_, hlog⟩
  exact hlast [{ name := ['f'], state := true }, { name := ['f'], state := true }]
    { name := ['f'], state := false } [] (by rw [hflags]; rfl) (by simp)

end AutoGentoo
