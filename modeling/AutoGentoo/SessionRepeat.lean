import AutoGentoo.DepthFirst
import AutoGentoo.RegenerateEnds
import AutoGentoo.RegenerateFrame

/-! Resolving again what is clean: the objects are visited in the order of their
generators, and nothing is selected, read or set. -/

namespace AutoGentoo

open StateExcept Relation
open DepthFirst (visit Edge)

namespace Emerge

/-- The objects for which one has generators. -/
def generated (self : Emerge) (x : Nat) : List Nat :=
  match self.selected[x]? with
  | none => []
  | some selected => selected.generators.entries.map fun p => p.2.sel

/-- Nothing differs but the session and the resolved dependencies, which are these. -/
structure Rewrites (s t : Emerge) (deps : Nat → SelectedEbuild → DependencyContainer Generator) : Prop where
  rest : { t with resolveSession := s.resolveSession, selected := s.selected } = s
  objects : ∀ z : Nat, t.selected[z]? = (s.selected[z]?).map fun a => { a with resolvedDeps := deps z a }

/-- What has come into the session has its generators for resolved dependencies. -/
def Settles (s t : Emerge) : Prop := s.Rewrites t fun z a =>
  if z ∈ t.resolveSession ∧ z ∉ s.resolveSession then a.generators else a.resolvedDeps

/-- Objects that are there, not dirty, and have generators for those that follow them. -/
def CleanOver (P : Nat → Prop) (next : Nat → List Nat) (s : Emerge) : Prop := ∀ x, P x →
  ∃ a, s.selected[x]? = some a ∧ a.isDirty = false ∧ (a.generators.entries.map fun p => p.2.sel) = next x

variable {s t r : Emerge} {d e : Nat → SelectedEbuild → DependencyContainer Generator} {P : Nat → Prop}
  {next : Nat → List Nat}

theorem Rewrites.refl (s : Emerge) : s.Rewrites s fun _ a => a.resolvedDeps :=
  ⟨rfl, fun z => by simp⟩

theorem Rewrites.trans (h : s.Rewrites t d) (h' : t.Rewrites r e) :
    s.Rewrites r fun z a => e z { a with resolvedDeps := d z a } := by
  have hrest := congrArg (fun u : Emerge =>
    { u with resolveSession := s.resolveSession, selected := s.selected }) h'.rest
  refine ⟨hrest.trans h.rest, fun z => ?_⟩
  rw [h'.objects z, h.objects z, Option.map_map]
  rfl

theorem Rewrites.congr (h : s.Rewrites t d) (hde : ∀ z a, d z a = e z a) : s.Rewrites t e := by
  refine ⟨h.rest, fun z => ?_⟩
  rw [h.objects z]
  simp only [hde]

theorem Rewrites.modifySel (x : Nat) (f : SelectedEbuild → DependencyContainer Generator) (s : Emerge) :
    s.Rewrites (AutoGentoo.modifySel x (fun a => { a with resolvedDeps := f a }) s).2
      fun z a => if z = x then f a else a.resolvedDeps := by
  refine ⟨rfl, fun z => ?_⟩
  by_cases hz : z = x
  · rw [hz, modifySel_self]
    simp only [if_true]
  · rw [modifySel_ne (Ne.symm hz)]
    simp [hz]

theorem Rewrites.cleanOver (h : s.Rewrites t d) (hs : s.CleanOver P next) : t.CleanOver P next := by
  intro x hx
  obtain ⟨a, ha, hdirty, hnext⟩ := hs x hx
  exact ⟨{ a with resolvedDeps := d x a }, by rw [h.objects x, ha]; rfl, hdirty, hnext⟩

theorem Settles.refl (s : Emerge) : s.Settles s := (Rewrites.refl s).congr fun z a => by
  rw [if_neg fun h => h.2 h.1]

/-- All that differs is told by the session. -/
theorem Settles.ext {u : Emerge} (h : s.Settles t) (h' : s.Settles u)
    (hsession : u.resolveSession = t.resolveSession) : u = t := by
  have hselected : u.selected = t.selected := by
    refine List.ext_getElem? fun z => ?_
    rw [h.objects z, h'.objects z, hsession]
  have hrest := h'.rest.trans h.rest.symm
  cases t
  cases u
  simp_all

end Emerge

open Emerge

theorem refreshIfDirty_of_clean (select : Select) {x : Nat} {s : Emerge} {a : SelectedEbuild}
    (ha : s.selected[x]? = some a) (hdirty : a.isDirty = false) :
    refreshIfDirty select x s = (.ok (), s) := by
  refine bind_ok.mpr ⟨a, s, getSel_ok.mpr ⟨ha, rfl⟩, ?_⟩
  rw [if_neg (by simp [hdirty])]
  rfl

section

variable {P : Nat → Prop} {next : Nat → List Nat} {fuel : Nat} {regenerate : Nat → Resolution Unit}

/-- The last loop of `regenerate`, where the calls below it only visit. -/
theorem resolveGenerators_settles {x : Nat}
    (hresolve : ∀ y s seen, s.CleanOver P next → P y → visit next fuel s.resolveSession y = some seen →
      ∃ t, getResolved regenerate y s = (.ok (), t) ∧ t.resolveSession = seen ∧ s.Settles t)
    (l : List (Fin 4 × Generator)) {u : Emerge} {seen : List Nat} (hu : u.CleanOver P next)
    (hx : x ∈ u.resolveSession) (hl : ∀ p ∈ l, P p.2.sel)
    (hvisit : (l.map fun p => p.2.sel).foldlM (visit next fuel) u.resolveSession = some seen) :
    ∃ t, l.forM (resolveGenerator regenerate x) u = (.ok (), t) ∧ t.resolveSession = seen ∧
      u.Rewrites t fun z a => if z = x then a.resolvedDeps.appendAll l
        else if z ∈ seen ∧ z ∉ u.resolveSession then a.generators else a.resolvedDeps := by
  induction l generalizing u with
  | nil =>
    obtain rfl := Option.some.inj hvisit
    refine ⟨u, rfl, rfl, (Rewrites.refl u).congr fun z a => ?_⟩
    rw [if_neg (fun h => h.2 h.1 : ¬ (z ∈ u.resolveSession ∧ z ∉ u.resolveSession)), ite_eq_right_iff.mpr]
    exact fun _ => rfl
  | cons p l ih =>
    rw [List.map_cons, List.foldlM_cons] at hvisit
    obtain ⟨mid, hmid, hrest⟩ := Option.bind_eq_some_iff.mp hvisit
    obtain ⟨v, hresolved, hsession, hsettles⟩ := hresolve p.2.sel u mid hu (hl p List.mem_cons_self) hmid
    have happend := Rewrites.modifySel x (fun a => a.resolvedDeps.append p.1 p.2) v
    have hold : u.resolveSession ⊆ mid := (DepthFirst.visit_visited hmid).suffix.subset
    have hnew : mid ⊆ seen :=
      (DepthFirst.foldlM_visited DepthFirst.visit_visited hrest).suffix.subset
    have hw : (modifySel x (fun a => { a with resolvedDeps := a.resolvedDeps.append p.1 p.2 }) v).2.resolveSession =
        mid := hsession
    obtain ⟨t, hloop, ht, hrewrites⟩ := ih (happend.cleanOver (hsettles.cleanOver hu)) (hw ▸ hold hx)
      (fun q hq => hl q (List.mem_cons_of_mem p hq)) (hw ▸ hrest)
    have hturn : resolveGenerator regenerate x p u =
        (.ok (), (modifySel x (fun a => { a with resolvedDeps := a.resolvedDeps.append p.1 p.2 }) v).2) :=
      bind_ok.mpr ⟨(), v, hresolved, rfl⟩
    refine ⟨t, forM_ok.mpr ⟨_, hturn, hloop⟩, ht, ((hsettles.trans happend).trans hrewrites).congr fun z a => ?_⟩
    simp only [hw, hsession]
    by_cases hz : z = x
    · subst hz
      simp [hx, DependencyContainer.appendAll]
    · by_cases hmem : z ∈ mid
      · have hseen := hnew hmem
        simp [hz, hmem, hseen]
      · have hnot : z ∉ u.resolveSession := fun h => hmem (hold h)
        simp [hz, hmem, hnot]

end

theorem getResolved_settles (select : Select) {P : Nat → Prop} {next : Nat → List Nat}
    (hP : ∀ a, P a → ∀ b ∈ next a, P b) (fuel x : Nat) {s : Emerge} {seen : List Nat} (hs : s.CleanOver P next)
    (hx : P x) (hvisit : visit next fuel s.resolveSession x = some seen) :
    ∃ t, getResolved (regenerate select fuel) x s = (.ok (), t) ∧ t.resolveSession = seen ∧ s.Settles t := by
  induction fuel generalizing x s seen with
  | zero =>
    by_cases hmem : x ∈ s.resolveSession
    · obtain rfl := Option.some.inj ((DepthFirst.visit_of_mem hmem).symm.trans hvisit)
      exact ⟨s, getResolved_of_mem _ hmem, rfl, Settles.refl s⟩
    · rw [DepthFirst.visit_zero hmem] at hvisit
      exact absurd hvisit (by simp)
  | succ fuel ih =>
    by_cases hmem : x ∈ s.resolveSession
    · obtain rfl := Option.some.inj ((DepthFirst.visit_of_mem hmem).symm.trans hvisit)
      exact ⟨s, getResolved_of_mem _ hmem, rfl, Settles.refl s⟩
    · rw [DepthFirst.visit_succ hmem] at hvisit
      obtain ⟨a, ha, hdirty, hnext⟩ := hs x hx
      let opened : Emerge := { s with resolveSession := x :: s.resolveSession }
      have hopened : s.Rewrites opened fun _ a => a.resolvedDeps := ⟨rfl, fun z => by simp [opened]⟩
      have hcleared := Rewrites.modifySel x (fun _ => .empty) opened
      have hw : (modifySel x (fun a => { a with resolvedDeps := .empty }) opened).2.selected[x]? =
          some { a with resolvedDeps := .empty } := by
        rw [modifySel_self]
        exact congrArg (Option.map _) ha
      obtain ⟨t, hloop, ht, hrewrites⟩ := resolveGenerators_settles (fun y s seen => ih y) a.generators.entries
        (hcleared.cleanOver (hopened.cleanOver hs)) List.mem_cons_self
        (fun p hp => hP x hx _ (hnext ▸ List.mem_map_of_mem hp)) (hnext ▸ hvisit)
      have hregenerate : regenerate select (fuel + 1) x opened = (.ok (), t) :=
        bind_ok.mpr ⟨(), opened, refreshIfDirty_of_clean select ha hdirty,
          bind_ok.mpr ⟨(), _, rfl, bind_ok.mpr ⟨_, _, getSel_ok.mpr ⟨hw, rfl⟩, hloop⟩⟩⟩
      refine ⟨t, by rw [getResolved_of_notMem _ hmem]; exact hregenerate, ht, ?_⟩
      have hall := (hopened.trans hcleared).trans hrewrites
      refine ⟨hall.rest, fun z => ?_⟩
      rw [hall.objects z, ht]
      by_cases hz : z = x
      · have hseen : x ∈ seen :=
          (DepthFirst.foldlM_visited DepthFirst.visit_visited hvisit).suffix.subset List.mem_cons_self
        rw [hz, ha]
        simp [hseen, hmem, DependencyContainer.appendAll_entries]
      · have hopen : z ∉ x :: s.resolveSession ↔ z ∉ s.resolveSession := by simp [hz]
        have hsession : (modifySel x (fun a => { a with resolvedDeps := .empty }) opened).2.resolveSession =
            x :: s.resolveSession := rfl
        simp only [hz, if_false, hsession, hopen]

/-- Where the objects reached along the generators are there and not dirty, resolving again
in a new session returns, whatever `select_atom` is. The session is what is reached, each
object once; what is reached has its generators for resolved dependencies, and nothing else
differs. Resolving once more changes nothing. -/
theorem resolved_again (select : Select) {s : Emerge} {sel fuel : Nat}
    (hclean : ∀ x, ReflTransGen (Edge s.generated) sel x →
      ∃ a, s.selected[x]? = some a ∧ a.isDirty = false)
    (hfuel : s.selected.length ≤ fuel) :
    ∃ t, getResolved (regenerate select fuel) sel { s with resolveSession := [] } = (.ok (), t) ∧
      Settles { s with resolveSession := [] } t ∧ t.resolveSession.Nodup ∧
      (∀ x, x ∈ t.resolveSession ↔ ReflTransGen (Edge s.generated) sel x) ∧
      getResolved (regenerate select fuel) sel { t with resolveSession := [] } = (.ok (), t) := by
  let P : Nat → Prop := ReflTransGen (Edge s.generated) sel
  let cleared : Emerge := { s with resolveSession := [] }
  have hP : ∀ a, P a → ∀ b ∈ s.generated a, P b := fun a ha b hb => ha.tail hb
  have hover : cleared.CleanOver P s.generated := by
    intro x hx
    obtain ⟨a, ha, hdirty⟩ := hclean x hx
    exact ⟨a, ha, hdirty, by rw [generated, ha]⟩
  have hvertices : ∀ x, P x → x ∈ List.range s.selected.length := by
    intro x hx
    obtain ⟨a, ha, -⟩ := hclean x hx
    exact List.mem_range.mpr (List.getElem?_eq_some_iff.mp ha).1
  have hroom : DepthFirst.unseen (List.range s.selected.length) [] ≤ fuel := by
    refine Nat.le_trans (List.length_filter_le _ _) ?_
    rwa [List.length_range]
  obtain ⟨seen, hvisit⟩ := DepthFirst.visit_total hvertices hP (.refl : P sel) hroom
  obtain ⟨t, hfirst, ht, hsettles⟩ := getResolved_settles select hP fuel sel hover .refl hvisit
  have hagain : CleanOver P s.generated { t with resolveSession := [] } := hsettles.cleanOver hover
  obtain ⟨u, hsecond, hu, hsettles'⟩ := getResolved_settles select hP fuel sel hagain .refl hvisit
  refine ⟨t, hfirst, hsettles, ?_, fun x => ?_, ?_⟩
  · rw [ht]
    exact (DepthFirst.visit_visited hvisit).nodup List.nodup_nil
  · rw [ht]
    exact DepthFirst.visit_mem_iff hvisit x
  · have hboth : cleared.Settles u := by
      refine ⟨?_, fun z => ?_⟩
      · have hrest := congrArg (fun e : Emerge => { e with selected := s.selected }) hsettles'.rest
        exact hrest.trans hsettles.rest
      · rw [hsettles'.objects z, hsettles.objects z, Option.map_map]
        simp only [hu, ht, cleared]
        congr 1
        funext a
        by_cases hz : z ∈ seen <;> simp [hz]
    rw [hsecond, hsettles.ext hboth (hu.trans ht.symm)]

/-- What `get_resolved` leaves of a package that requires another in each of its lists. -/
def sameResolved : Emerge :=
  (getResolved (regenerate (selectAtomOver search) 2) 0 (barStart UseHeap.init sameEverywhere)).2

theorem resolved_again_same : ∃ t,
    getResolved (regenerate (selectAtomOver search) 2) 0 { sameResolved with resolveSession := [] } =
        (.ok (), t) ∧ 1 ∈ t.resolveSession ∧ t.resolveSession.Nodup := by
  have hlength : sameResolved.selected.length ≤ 2 := by decide +kernel
  have hstays : ∀ a ∈ [0, 1], ∀ b ∈ sameResolved.generated a, b ∈ [0, 1] := by decide +kernel
  have hclean : ∀ a ∈ [0, 1], (sameResolved.selected[a]?).any (fun a => !a.isDirty) = true := by
    decide +kernel
  have hedge : 1 ∈ sameResolved.generated 0 := by decide +kernel
  have hthere : ∀ x, ReflTransGen (Edge sameResolved.generated) 0 x →
      ∃ a, sameResolved.selected[x]? = some a ∧ a.isDirty = false := by
    intro x hx
    have hx : x ∈ [0, 1] := by
      induction hx with
      | refl => exact List.mem_cons_self
      | tail _ hstep ih => exact hstays _ ih _ hstep
    have hany := hclean x hx
    cases ha : sameResolved.selected[x]? with
    | none =>
      rw [ha] at hany
      exact absurd hany (by simp)
    | some a =>
      rw [ha] at hany
      exact ⟨a, rfl, by simpa using hany⟩
  obtain ⟨t, ht, -, hnodup, hmem, -⟩ := resolved_again (selectAtomOver search) hthere hlength
  exact ⟨t, ht, (hmem 1).mpr (.single hedge), hnodup⟩

end AutoGentoo
