import AutoGentoo.MarkedGraph
import AutoGentoo.RegenerateClean
import AutoGentoo.RegenerateEnds

/-! The session of a resolution: the objects that are reached from those `get_resolved`
has been called on, along their resolved dependencies. -/

namespace AutoGentoo

open StateExcept Emerge GuardedRun Relation
open MarkedGraph (Closed Extends Explored)

namespace Emerge

/-- The lists of resolved dependencies of one object have another in them. -/
def Requires (self : Emerge) (x y : Nat) : Prop :=
  ∃ d, self.deps x = some d ∧ ∃ p ∈ d.2.entries, p.2.sel = y

def session (self : Emerge) : Set Nat := { x | x ∈ self.resolveSession }

/-- The objects of the session are there, and so is what they require. -/
structure Explores (s : Emerge) : Prop where
  live : ∀ x ∈ s.session, (s.deps x).isSome = true
  closed : Closed s.session s.Requires

/-- Of the objects of the session nothing is lost. -/
def Grows (s t : Emerge) : Prop := Extends s.session s.Requires t.session t.Requires

def SameSession (s t : Emerge) : Prop := t.resolveSession = s.resolveSession

end Emerge

theorem sameSession_refl (s : Emerge) : SameSession s s := rfl

theorem sameSession_trans (s t r : Emerge) (h : SameSession s t) (h' : SameSession t r) :
    SameSession s r := h'.trans h

theorem sameSession_bind {α β : Type} {c : Resolution α} {f : α → Resolution β}
    (hc : Respects SameSession c) (hf : ∀ a, Respects SameSession (f a)) :
    Respects SameSession (c >>= f) := hc.bind sameSession_trans hf

theorem UseOnly.sameSession {sel : Nat} {α : Type} {c : Resolution α} (h : UseOnly sel c) :
    Respects SameSession c := h.same.mono fun _ _ h => h.resolveSession.symm

theorem modifySel_sameSession (sel : Nat) (f : SelectedEbuild → SelectedEbuild) :
    Respects SameSession (modifySel sel f) := fun _ => rfl

theorem select_sameSession (loop : ForLoop) (parent : Option Nat) (atom : Atom) :
    Respects SameSession (ofCall (selectAtomOver loop parent atom)) := by
  intro s
  rcases ofCall_state (selectAtomOver loop parent atom) s with he | ⟨a, t, h, he⟩
  · rw [he]
    exact sameSession_refl s
  · rw [he]
    exact (selectAtomOver_effect h).session

theorem resolveAtom_sameSession (loop : ForLoop) (parent : Option Nat) (atom : Atom) :
    Respects SameSession (resolveAtom (selectAtomOver loop) parent atom) := by
  refine sameSession_bind (select_sameSession loop parent atom) fun found => ?_
  cases found with
  | none =>
    simp only
    split_ifs
    · exact respects_pure sameSession_refl _
    · exact respects_throw sameSession_refl _
  | some sel =>
    have huse : UseOnly sel (atom.useflags.forM (requireUse sel)) :=
      UseOnly.forM fun use _ => requireUse_useOnly sel use
    exact sameSession_bind huse.sameSession fun _ => respects_pure sameSession_refl _

theorem resolveSingle_sameSession (loop : ForLoop) (parent : Option Nat) (useOperator : UseOperator)
    (useCondition : Nat) (atom : Option Atom) (children : DependTree) :
    Respects SameSession (resolveSingle (selectAtomOver loop) parent useOperator useCondition atom children) := by
  cases atom with
  | some atom =>
    simp only [resolveSingle]
    split_ifs
    · exact sameSession_bind (addBlock_useOnly 0 atom).sameSession fun _ => respects_pure sameSession_refl _
    · exact resolveAtom_sameSession loop parent atom
  | none =>
    cases parent with
    | none => exact respects_throw sameSession_refl _
    | some parent =>
      exact sameSession_bind (resolveCondition_useOnly parent _ _ _).sameSession fun _ =>
        respects_pure sameSession_refl _

theorem resolveAll_sameSession (loop : ForLoop) (sel : Nat) (i : Fin 4) (expression : DependTree) :
    Respects SameSession (resolveAll (selectAtomOver loop) (some sel) (appendGenerator sel i) expression) := by
  induction expression with
  | null => exact respects_pure sameSession_refl _
  | node useOperator useCondition atom children next _ ih =>
    refine sameSession_bind (resolveSingle_sameSession loop (some sel) _ _ atom children) fun resolved => ?_
    refine sameSession_bind ?_ fun _ => ih
    cases resolved with
    | none => exact respects_pure sameSession_refl _
    | some dep => exact modifySel_sameSession sel _

/-- Only `get_resolved` puts an object into the session. -/
theorem refreshIfDirty_sameSession (loop : ForLoop) (sel : Nat) :
    Respects SameSession (refreshIfDirty (selectAtomOver loop) sel) := by
  refine sameSession_bind (getSel_useOnly sel sel).sameSession fun selected => ?_
  split_ifs
  · refine sameSession_bind (modifySel_sameSession sel _) fun _ => ?_
    refine sameSession_bind (getSel_useOnly sel sel).sameSession fun selected => ?_
    have hload : Respects SameSession (loadMetadata selected.ebuild) := by
      refine sameSession_bind (respects_get sameSession_refl) fun self => ?_
      split_ifs
      · exact respects_pure sameSession_refl _
      · exact fun _ => rfl
    refine sameSession_bind hload fun _ => ?_
    refine sameSession_bind (flushUse_useOnly sel).sameSession fun _ => ?_
    refine sameSession_bind (respects_get sameSession_refl) fun self => ?_
    refine sameSession_bind (hookRequiredUse_useOnly sel _).sameSession fun _ => ?_
    refine sameSession_bind ?_ fun _ => modifySel_sameSession sel _
    exact respects_forM sameSession_refl sameSession_trans fun i _ => resolveAll_sameSession loop sel i _
  · exact respects_pure sameSession_refl _

/-- What leaves the session and the lists of its members alone. -/
def Emerge.Calls (s t : Emerge) : Prop :=
  SameSession s t ∧ ∀ x d, s.deps x = some d → t.deps x = some d

namespace Emerge

theorem Calls.requires {s t : Emerge} (h : s.Calls t) (hs : s.Explores) {x : Nat} (hx : x ∈ s.session)
    (y : Nat) : t.Requires x y ↔ s.Requires x y := by
  obtain ⟨d, hd⟩ := Option.isSome_iff_exists.mp (hs.live x hx)
  rw [Requires, Requires, hd, h.2 x d hd]

theorem Calls.grows {s t : Emerge} (h : s.Calls t) (hs : s.Explores) : t.Explores ∧ s.Grows t := by
  have hsession : t.session = s.session := congrArg (fun l : List Nat => { x | x ∈ l }) h.1
  refine ⟨⟨fun x hx => ?_, fun x hx y hy => ?_⟩, fun x hx => ⟨hsession ▸ hx, fun y hy => ?_⟩⟩
  · rw [hsession] at hx
    obtain ⟨d, hd⟩ := Option.isSome_iff_exists.mp (hs.live x hx)
    rw [h.2 x d hd, Option.isSome_some]
  · rw [hsession] at hx ⊢
    exact hs.closed x hx y ((h.requires hs hx y).mp hy)
  · exact (h.requires hs hx y).mpr hy

end Emerge

theorem mem_entries {α : Type} {self : DependencyContainer α} {i : Fin 4} {x : α} :
    (i, x) ∈ self.entries ↔ x ∈ self.getItem i := by
  fin_cases i <;> simp [DependencyContainer.entries, DependencyContainer.getItem]

theorem mem_entries_append {α : Type} {self : DependencyContainer α} {p q : Fin 4 × α} :
    q ∈ (self.append p.1 p.2).entries ↔ q ∈ self.entries ∨ q = p := by
  obtain ⟨i, x⟩ := p
  obtain ⟨j, y⟩ := q
  rw [mem_entries, mem_entries, DependencyContainer.getItem_append, Prod.mk.injEq]
  by_cases h : i = j
  · subst h
    simp
  · simp [h, Ne.symm h]

/-- The turn of the last loop of `regenerate`, for an object of the session. -/
theorem append_requires {sel : Nat} {p : Fin 4 × Generator} {s t : Emerge} {selected : SelectedEbuild}
    (hs : s.selected[sel]? = some selected)
    (h : modifySel sel (fun s => { s with resolvedDeps := s.resolvedDeps.append p.1 p.2 }) s = (.ok (), t))
    (x y : Nat) : t.Requires x y ↔ s.Requires x y ∨ (x = sel ∧ y = p.2.sel) := by
  obtain rfl : (modifySel sel (fun s => { s with resolvedDeps := s.resolvedDeps.append p.1 p.2 }) s).2 = t := by
    rw [h]
  by_cases hx : sel = x
  · subst hx
    simp only [Requires, Emerge.deps, modifySel_self, hs, Option.map_some, Option.some.injEq,
      exists_eq_left', mem_entries_append]
    constructor
    · rintro ⟨q, hq | rfl, rfl⟩
      · exact .inl ⟨q, hq, rfl⟩
      · exact .inr ⟨trivial, rfl⟩
    · rintro (⟨q, hq, rfl⟩ | ⟨-, rfl⟩)
      · exact ⟨q, .inl hq, rfl⟩
      · exact ⟨p, .inr rfl, rfl⟩
  · simp only [Requires, Emerge.deps, modifySel_ne hx, Ne.symm hx, false_and, or_false]

/-- A call of `get_resolved` adds what is reached from its object. -/
structure Visits (sel : Nat) (s t : Emerge) : Prop where
  explores : t.Explores
  grows : s.Grows t
  member : sel ∈ t.session
  explored : Explored s.session t.session t.Requires sel

/-- The last loop of `regenerate`, where the calls below it add what they reach. -/
theorem resolveGenerators_visits {regenerate : Nat → Resolution Unit} {sel : Nat}
    (hresolve : ∀ z s t, s.Explores → getResolved regenerate z s = (.ok (), t) → Visits z s t)
    {l : List (Fin 4 × Generator)} {s t : Emerge} (hs : s.Explores) (hsel : sel ∈ s.session)
    (h : l.forM (resolveGenerator regenerate sel) s = (.ok (), t)) :
    t.Explores ∧ s.Grows t ∧ Explored s.session t.session t.Requires sel := by
  induction l generalizing s with
  | nil =>
    obtain ⟨-, rfl⟩ := pure_ok.mp h
    exact ⟨hs, Extends.refl _ _, fun x hx hnot => absurd hx hnot⟩
  | cons p l ih =>
    obtain ⟨w, hturn, hrest⟩ := forM_ok.mp h
    obtain ⟨_, u, hresolved, happend⟩ := bind_ok.mp hturn
    obtain ⟨hu, hgrows, hmember, hexplored⟩ := hresolve p.2.sel s u hs hresolved
    have hselu : sel ∈ u.session := (hgrows sel hsel).1
    obtain ⟨d, hd⟩ := Option.isSome_iff_exists.mp (hu.live sel hselu)
    obtain ⟨selected, hselected, -⟩ := Option.map_eq_some_iff.mp hd
    have hrequires := append_requires hselected happend
    have hsession : w.session = u.session := by
      have hsame := (modifySel_sameSession sel _).ok happend
      exact congrArg (fun l : List Nat => { x | x ∈ l }) hsame
    have hw : w.Explores := by
      refine ⟨fun x hx => ?_, fun x hx y hy => ?_⟩
      · rw [hsession] at hx
        obtain rfl : (modifySel sel _ u).2 = w := by rw [happend]
        by_cases hne : sel = x
        · rw [← hne, Emerge.deps, modifySel_self, hselected]
          rfl
        · rw [Emerge.deps, modifySel_ne hne]
          exact hu.live x hx
      · rw [hsession] at hx ⊢
        rcases (hrequires x y).mp hy with hy | ⟨-, rfl⟩
        · exact hu.closed x hx y hy
        · exact hmember
    have huw : u.Grows w := fun x hx => ⟨hsession ▸ hx, fun y hy => (hrequires x y).mpr (.inl hy)⟩
    obtain ⟨ht, hwt, hrestExplored⟩ := ih hw (hsession ▸ hselu) hrest
    have hedge : t.Requires sel p.2.sel :=
      (hwt sel (hsession ▸ hselu)).2 _ ((hrequires sel p.2.sel).mpr (.inr ⟨rfl, rfl⟩))
    refine ⟨ht, (hgrows.trans huw).trans hwt, ?_⟩
    refine hexplored.step hu.closed hmember (huw.trans hwt) ?_ hedge
    rwa [hsession] at hrestExplored

theorem visits_of_mem {regenerate : Nat → Resolution Unit} {sel : Nat} {s t : Emerge} (hs : s.Explores)
    (hmem : sel ∈ s.resolveSession) (h : getResolved regenerate sel s = (.ok (), t)) : Visits sel s t := by
  rw [getResolved_of_mem _ hmem] at h
  obtain ⟨-, rfl⟩ := Prod.mk.inj h
  exact ⟨hs, Extends.refl _ _, hmem, fun x hx hnot => absurd hx hnot⟩

/-- `regenerate` for an object that has just been put into the session. -/
theorem regenerate_visits {loop : ForLoop} {fuel sel : Nat} {s t : Emerge} (hs : s.Explores)
    (hmem : sel ∉ s.resolveSession)
    (h : regenerate (selectAtomOver loop) fuel sel (s.opened sel) = (.ok (), t)) : Visits sel s t := by
  induction fuel generalizing sel s t with
  | zero => exact absurd h throw_ok
  | succ fuel ih =>
    have hresolve : ∀ z s t, s.Explores →
        getResolved (regenerate (selectAtomOver loop) fuel) z s = (.ok (), t) → Visits z s t := by
      intro z s t hs h
      by_cases hz : z ∈ s.resolveSession
      · exact visits_of_mem hs hz h
      · rw [getResolved_of_notMem _ hz] at h
        exact ih hs hz h
    obtain ⟨_, v, hrefresh, h⟩ := bind_ok.mp h
    obtain ⟨_, u, hclear, h⟩ := bind_ok.mp h
    obtain ⟨selected, w, hget, hloop⟩ := bind_ok.mp h
    obtain ⟨hselected, rfl⟩ := getSel_ok.mp hget
    obtain ⟨hcleared, hsame⟩ := modifySel_ok hclear
    have hsession : w.resolveSession = sel :: s.resolveSession :=
      hsame.trans ((refreshIfDirty_sameSession loop sel).ok hrefresh)
    -- the members keep their lists, and the one put in has none yet
    have hdeps : ∀ x d, x ∈ s.session → s.deps x = some d → w.deps x = some d := by
      intro x d hx hd
      have hne : sel ≠ x := by
        rintro rfl
        exact hmem hx
      have hkeeps := ((keeps_frame loop x).refreshIfDirty hne).ok hrefresh (List.mem_cons_of_mem _ hx)
      obtain rfl : (modifySel sel _ v).2 = w := by rw [hclear]
      rw [Emerge.deps, modifySel_ne hne]
      exact hkeeps.2 d hd
    have hrequires : ∀ x, x ∈ s.session → ∀ y, w.Requires x y ↔ s.Requires x y := by
      intro x hx y
      obtain ⟨d, hd⟩ := Option.isSome_iff_exists.mp (hs.live x hx)
      rw [Requires, Requires, hd, hdeps x d hx hd]
    have hempty : ∀ y, ¬ w.Requires sel y := by
      rintro y ⟨d, hd, p, hp, -⟩
      rw [Emerge.deps, hcleared] at hd
      obtain ⟨first, hfirst, rfl⟩ := Option.map_eq_some_iff.mp hd
      obtain ⟨old, -, rfl⟩ := Option.map_eq_some_iff.mp hfirst
      exact absurd hp List.not_mem_nil
    have hmembers : ∀ x, x ∈ w.session ↔ x = sel ∨ x ∈ s.session := by
      intro x
      rw [session, Set.mem_ofPred_eq, hsession, List.mem_cons]
      rfl
    have hw : w.Explores := by
      refine ⟨fun x hx => ?_, fun x hx y hy => ?_⟩
      · rcases (hmembers x).mp hx with rfl | hx
        · rw [Emerge.deps, hselected]
          rfl
        · obtain ⟨d, hd⟩ := Option.isSome_iff_exists.mp (hs.live x hx)
          rw [hdeps x d hx hd, Option.isSome_some]
      · rcases (hmembers x).mp hx with rfl | hx
        · exact absurd hy (hempty y)
        · exact (hmembers y).mpr (.inr (hs.closed x hx y ((hrequires x hx y).mp hy)))
    have hsw : s.Grows w := fun x hx =>
      ⟨(hmembers x).mpr (.inr hx), fun y hy => (hrequires x hx y).mpr hy⟩
    obtain ⟨ht, hwt, hexplored⟩ := resolveGenerators_visits hresolve hw ((hmembers sel).mpr (.inl rfl)) hloop
    refine ⟨ht, hsw.trans hwt, (hwt sel ((hmembers sel).mpr (.inl rfl))).1, fun x hx hnot => ?_⟩
    by_cases hxs : x = sel
    · rw [hxs]
    · exact hexplored x hx fun hxw => ((hmembers x).mp hxw).elim hxs hnot

theorem getResolved_visits {loop : ForLoop} {fuel sel : Nat} {s t : Emerge} (hs : s.Explores)
    (h : getResolved (regenerate (selectAtomOver loop) fuel) sel s = (.ok (), t)) : Visits sel s t := by
  by_cases hmem : sel ∈ s.resolveSession
  · exact visits_of_mem hs hmem h
  · rw [getResolved_of_notMem _ hmem] at h
    exact regenerate_visits hs hmem h

/-- What is called from outside of the resolution, with `PackageResolutionSession.clear`;
`regenerate` is called by `get_resolved` alone. -/
inductive SessionCall
  | clear
  | addBlock (atom : Atom)
  | selectAtom (parent : Option Nat) (atom : Atom)
  | changeWithinSlot (sel : Nat) (atom : Atom)
  | scheduleUse (sel : Nat) (useflag : UseFlag)
  | addUseRequirement (sel : Nat) (name : List Char) (flag : AtomUse)
  | getResolved (fuel sel : Nat)
  deriving DecidableEq, Repr

namespace SessionCall

/-- The state after a call. A call that resolves returns; the others may raise. -/
def next (loop : ForLoop) (s : Emerge) : SessionCall → Option Emerge
  | clear => some { s with resolveSession := [] }
  | addBlock atom => some (AutoGentoo.addBlock atom s).2
  | selectAtom parent atom => some (ofCall (selectAtomOver loop parent atom) s).2
  | changeWithinSlot sel atom => some (ofCall (changeWithinSlotOver loop sel atom) s).2
  | scheduleUse sel useflag => some (AutoGentoo.scheduleUse sel useflag s).2
  | addUseRequirement sel name flag => some (AutoGentoo.addUseRequirement sel name flag s).2
  | getResolved fuel sel =>
    EmergeCall.returned (AutoGentoo.getResolved (regenerate (selectAtomOver loop) fuel) sel s)

/-- The objects `get_resolved` has been called on since the session was cleared. -/
def addRoot (roots : List Nat) : SessionCall → List Nat
  | clear => []
  | getResolved _ sel => sel :: roots
  | addBlock _ | selectAtom _ _ | changeWithinSlot _ _ | scheduleUse _ _ | addUseRequirement _ _ _ => roots

end SessionCall

/-- What every call keeps. -/
structure Rooted (roots : List Nat) (s : Emerge) : Prop where
  explores : s.Explores
  resolved : ∀ root ∈ roots, root ∈ s.session
  reached : ∀ x ∈ s.session, ∃ root ∈ roots, ReflTransGen s.Requires root x

theorem Rooted.grow {roots : List Nat} {s t : Emerge} (hs : Rooted roots s) (ht : t.Explores)
    (hgrows : s.Grows t) (hreached : ∀ x ∈ t.session, x ∉ s.session →
      ∃ root ∈ roots, ReflTransGen t.Requires root x) : Rooted roots t := by
  refine ⟨ht, fun root hroot => (hgrows root (hs.resolved root hroot)).1, fun x hx => ?_⟩
  by_cases hold : x ∈ s.session
  · obtain ⟨root, hroot, hpath⟩ := hs.reached x hold
    exact ⟨root, hroot, (hs.explores.closed.path hgrows (hs.resolved root hroot) hpath).2⟩
  · exact hreached x hx hold

theorem Rooted.calls {roots : List Nat} {s t : Emerge} (hs : Rooted roots s) (h : s.Calls t) :
    Rooted roots t := by
  obtain ⟨ht, hgrows⟩ := h.grows hs.explores
  refine hs.grow ht hgrows fun x hx hnot => absurd ?_ hnot
  have hsession : t.session = s.session := congrArg (fun l : List Nat => { x | x ∈ l }) h.1
  rwa [hsession] at hx

theorem UseOnly.calls {sel : Nat} {α : Type} {c : Resolution α} (h : UseOnly sel c) (s : Emerge) :
    s.Calls (c s).2 :=
  ⟨h.sameSession s, fun x _ hd => (h.same s).deps x ▸ hd⟩

theorem select_calls (loop : ForLoop) (parent : Option Nat) (atom : Atom) (s : Emerge) :
    s.Calls (ofCall (selectAtomOver loop parent atom) s).2 := by
  refine ⟨select_sameSession loop parent atom s, fun x d hd => ?_⟩
  rcases ofCall_state (selectAtomOver loop parent atom) s with he | ⟨a, t, h, he⟩
  · rwa [he]
  · rw [he]
    exact (selectAtomOver_effect h).deps hd

theorem changeWithinSlot_calls (loop : ForLoop) (sel : Nat) (atom : Atom) (s : Emerge) :
    s.Calls (ofCall (changeWithinSlotOver loop sel atom) s).2 := by
  refine ⟨changeWithinSlot_session loop sel atom s, fun x d hd => ?_⟩
  rcases ofCall_state (changeWithinSlotOver loop sel atom) s with he | ⟨a, t, h, he⟩
  · rwa [he]
  · rw [he]
    rcases changeWithinSlotOver_ok h with rfl | ⟨selected, candidate, hs, rfl⟩
    · exact hd
    · by_cases hne : sel = x
      · subst hne
        rw [Emerge.deps, hs] at hd
        rw [Emerge.deps, Emerge.changed, List.getElem?_set_self (List.getElem?_eq_some_iff.mp hs).1]
        exact hd
      · rwa [Emerge.deps, Emerge.changed, List.getElem?_set_ne hne]

theorem SessionCall.next_rooted {loop : ForLoop} {roots : List Nat} {s t : Emerge} {call : SessionCall}
    (hs : Rooted roots s) (h : call.next loop s = some t) : Rooted (call.addRoot roots) t := by
  cases call with
  | clear =>
    obtain rfl := Option.some.inj h
    refine ⟨⟨fun x hx => absurd hx List.not_mem_nil, fun x hx => absurd hx List.not_mem_nil⟩,
      fun root hroot => absurd hroot List.not_mem_nil, fun x hx => absurd hx List.not_mem_nil⟩
  | addBlock atom =>
    obtain rfl := Option.some.inj h
    exact hs.calls ((addBlock_useOnly 0 atom).calls s)
  | selectAtom parent atom =>
    obtain rfl := Option.some.inj h
    exact hs.calls (select_calls loop parent atom s)
  | changeWithinSlot sel atom =>
    obtain rfl := Option.some.inj h
    exact hs.calls (changeWithinSlot_calls loop sel atom s)
  | scheduleUse sel useflag =>
    obtain rfl := Option.some.inj h
    exact hs.calls ((scheduleUse_useOnly sel useflag).calls s)
  | addUseRequirement sel name flag =>
    obtain rfl := Option.some.inj h
    exact hs.calls ((addUseRequirement_useOnly sel name flag).calls s)
  | getResolved fuel sel =>
    obtain ⟨ht, hgrows, hmember, hexplored⟩ := getResolved_visits hs.explores (EmergeCall.returned_some.mp h)
    have hroots : Rooted (sel :: roots) t → Rooted ((SessionCall.getResolved fuel sel).addRoot roots) t := id
    refine hroots ⟨ht, fun root hroot => ?_, fun x hx => ?_⟩
    · rcases List.mem_cons.mp hroot with rfl | hroot
      · exact hmember
      · exact (hgrows root (hs.resolved root hroot)).1
    · by_cases hold : x ∈ s.session
      · obtain ⟨root, hroot, hpath⟩ := hs.reached x hold
        exact ⟨root, List.mem_cons_of_mem _ hroot,
          (hs.explores.closed.path hgrows (hs.resolved root hroot) hpath).2⟩
      · exact ⟨sel, List.mem_cons_self, hexplored x hx hold⟩

theorem SessionCall.run_rooted {loop : ForLoop} {calls : List SessionCall} {roots : List Nat} {s t : Emerge}
    (hs : Rooted roots s) (h : run (SessionCall.next loop) s calls = some t) :
    Rooted (calls.foldl SessionCall.addRoot roots) t := by
  induction calls generalizing s roots with
  | nil =>
    obtain rfl := Option.some.inj h
    exact hs
  | cons call calls ih =>
    obtain ⟨u, hu, hrest⟩ := Option.bind_eq_some_iff.mp h
    exact ih (SessionCall.next_rooted hs hu) hrest

theorem rooted_empty {s : Emerge} (hs : s.resolveSession = []) : Rooted [] s := by
  have hsession : ∀ y, y ∉ s.session := by
    intro y hy
    rw [session, Set.mem_ofPred_eq, hs] at hy
    exact List.not_mem_nil hy
  exact ⟨⟨fun y hy => absurd hy (hsession y), fun y hy => absurd hy (hsession y)⟩,
    fun y hy => absurd hy List.not_mem_nil, fun y hy => absurd hy (hsession y)⟩

/-- In every run of calls that starts with an empty session and of which those that
resolve return, the session is what is reached along the resolved dependencies from the
objects resolved since it was cleared. -/
theorem session_reached {loop : ForLoop} {calls : List SessionCall} {s t : Emerge}
    (hs : s.resolveSession = []) (h : run (SessionCall.next loop) s calls = some t) (x : Nat) :
    x ∈ t.resolveSession ↔
      ∃ root ∈ calls.foldl SessionCall.addRoot [], ReflTransGen t.Requires root x := by
  obtain ⟨ht, hroots, hreached⟩ := SessionCall.run_rooted (rooted_empty hs) h
  exact ht.closed.mem_iff hroots hreached x

theorem session_reached_same : ∃ t,
    run (SessionCall.next search) (barStart UseHeap.init sameEverywhere) [.getResolved 2 0] = some t ∧
      ∃ root ∈ [0], ReflTransGen t.Requires root 1 := by
  have hrun : (run (SessionCall.next search) (barStart UseHeap.init sameEverywhere)
      [.getResolved 2 0]).map Emerge.resolveSession = some [1, 0] := by
    decide +kernel
  obtain ⟨t, ht, hsession⟩ := Option.map_eq_some_iff.mp hrun
  refine ⟨t, ht, (session_reached rfl ht 1).mp ?_⟩
  rw [hsession]
  exact List.mem_cons_self

end AutoGentoo
