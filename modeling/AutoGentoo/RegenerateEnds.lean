import AutoGentoo.GuardedRun
import AutoGentoo.RegenerateDeps
import AutoGentoo.SelectOnce
import Mathlib.Data.List.Count

/-! How far `get_resolved` can go: a bound on the objects that are selected and
resolved on the way, where iterating a package visits its ebuilds once. -/

namespace AutoGentoo

open StateExcept Emerge GuardedRun

def Portage.ebuilds (self : Portage) : List Ebuild := self.objects.flatMap Package.ebuilds

namespace Emerge

/-- Every atom the expressions of a cache file ask for is matched by an ebuild of its
own package, where by any. -/
def OwnMatches (self : Emerge) : Prop :=
  ∀ addr i, ∀ atom ∈ ((self.cache addr).fields.depTypes i).topAtoms, ∀ ebuild,
    self.portage.matchAtom atom = some (.ok (some ebuild)) → ebuild.packageKey = atom.key

/-- The tables and slots an ebuild of the repository can be filed under. -/
def filings (self : Emerge) : List (List Char × Option (List Char)) :=
  self.portage.ebuilds.flatMap fun e => [(e.packageKey, none), (e.packageKey, (self.file e).slot)]

/-- How many of them are free. -/
def free (self : Emerge) : Nat := self.filings.countP fun p => (self.entry p.1 p.2).isNone

/-- How many objects are not in the session. -/
def unresolved (self : Emerge) : Nat :=
  (List.range self.selected.length).countP fun sel => sel ∉ self.resolveSession

def room (self : Emerge) : Nat := self.free + self.unresolved

end Emerge

theorem countP_lt_countP {α : Type} {p q : α → Bool} {l : List α} (h : ∀ x ∈ l, q x = true → p x = true)
    {a : α} (ha : a ∈ l) (hp : p a = true) (hq : q a = false) : l.countP q < l.countP p := by
  have hq' : l.countP q = (l.filter p).countP q := by
    rw [List.countP_filter]
    refine List.countP_congr fun x hx => ?_
    rw [Bool.and_eq_true]
    exact ⟨fun hqx => ⟨hqx, h x hx hqx⟩, And.left⟩
  rw [hq', List.countP_eq_length_filter (p := p)]
  exact List.countP_lt_length_iff.mpr ⟨a, List.mem_filter.mpr ⟨ha, hp⟩, by simp [hq]⟩

theorem matchLoop_mem {atom : Atom} {l : List Ebuild} {ebuild : Ebuild}
    (h : Package.matchLoop atom l = some (some ebuild)) : ebuild ∈ l := by
  induction l with
  | nil => exact absurd h (by simp [Package.matchLoop])
  | cons current older ih =>
    simp only [Package.matchLoop, Option.bind_eq_bind, Option.bind_eq_some_iff] at h
    obtain ⟨compare, -, h⟩ := h
    split_ifs at h
    · obtain rfl := Option.some.inj (Option.some.inj h)
      exact List.mem_cons_self
    · exact absurd h (by simp)
    · exact List.mem_cons_of_mem _ (ih h)

theorem Portage.matchAtom_mem {self : Portage} {atom : Atom} {ebuild : Ebuild}
    (h : self.matchAtom atom = some (.ok (some ebuild))) : ebuild ∈ self.ebuilds := by
  rw [Portage.matchAtom] at h
  split at h
  · exact absurd h (by simp)
  · next pkg hpkg =>
    obtain ⟨found, hmatch, hok⟩ := Option.map_eq_some_iff.mp h
    obtain rfl := Except.ok.inj hok
    have hmem : pkg ∈ self.objects := by
      cases hlut : Lut.lutGet self.packages atom.id with
      | zero =>
        rw [hlut] at hpkg
        exact absurd hpkg (by simp [deref])
      | succ address =>
        rw [hlut] at hpkg
        exact List.mem_of_getElem? hpkg
    exact List.mem_flatMap.mpr ⟨pkg, hmem, matchLoop_mem hmatch⟩

namespace Emerge

theorem slot_cases (self : Emerge) (ebuild : Ebuild) :
    self.slot ebuild = none ∨ self.slot ebuild = (self.file ebuild).slot := by
  rw [slot, metadata]
  split_ifs
  · exact .inr rfl
  · exact .inl rfl

theorem mem_filings {self : Emerge} {ebuild : Ebuild} (h : ebuild ∈ self.portage.ebuilds) :
    (ebuild.packageKey, self.slot ebuild) ∈ self.filings := by
  refine List.mem_flatMap.mpr ⟨ebuild, h, ?_⟩
  rcases self.slot_cases ebuild with hs | hs
  · rw [hs]
    exact List.mem_cons_self
  · rw [hs]
    exact List.mem_cons_of_mem _ List.mem_cons_self

theorem free_created {self : Emerge} {ebuild : Ebuild} {pkg : InstallPackage}
    (hmem : ebuild ∈ self.portage.ebuilds)
    (hpkg : pkg.selectedEbuildSlots = [] ∧ Dict.get self.selectedPackages ebuild.packageKey = none ∨
      Dict.get self.selectedPackages ebuild.packageKey = some pkg ∧
        Dict.get pkg.selectedEbuildSlots (self.slot ebuild) = none)
    (parent : Option Nat) (atom : Atom) :
    (self.created ebuild.packageKey pkg parent atom ebuild).free < self.free := by
  have hnone : self.entry ebuild.packageKey (self.slot ebuild) = none := by
    rw [entry]
    rcases hpkg with ⟨-, hget⟩ | ⟨hget, hslot⟩
    · rw [hget, Option.bind_none]
    · rw [hget, Option.bind_some, hslot]
  have hless : ∀ p ∈ self.filings,
      ((self.created ebuild.packageKey pkg parent atom ebuild).entry p.1 p.2).isNone = true →
        (self.entry p.1 p.2).isNone = true := by
    intro p _ hp
    rw [entry_created] at hp
    split_ifs at hp with hkey hslot
    · exact absurd hp (by simp)
    · rcases hpkg with ⟨-, hget⟩ | ⟨hget, -⟩
      · rw [entry, ← hkey, hget]
        rfl
      · rw [entry, ← hkey, hget]
        exact hp
    · exact hp
  have htaken : ((self.created ebuild.packageKey pkg parent atom ebuild).entry ebuild.packageKey
      (self.slot ebuild)).isNone = false := by
    rw [entry_created, if_pos rfl, if_pos rfl]
    rfl
  have hnew : (self.entry ebuild.packageKey (self.slot ebuild)).isNone = true := by
    rw [hnone]
    rfl
  exact countP_lt_countP hless (mem_filings hmem) hnew htaken

theorem unresolved_created (self : Emerge) (key : List Char) (pkg : InstallPackage)
    (parent : Option Nat) (atom : Atom) (ebuild : Ebuild) :
    (self.created key pkg parent atom ebuild).unresolved ≤ self.unresolved + 1 := by
  have hlen : (self.created key pkg parent atom ebuild).selected.length = self.selected.length + 1 :=
    List.length_append
  rw [unresolved, hlen, List.range_succ, List.countP_append]
  refine Nat.add_le_add_left ?_ _
  exact List.countP_le_length

theorem room_changed (self : Emerge) (sel : Nat) (selected : SelectedEbuild) (candidate : Ebuild) :
    (self.changed sel selected candidate).room = self.room := by
  have hlen : (self.changed sel selected candidate).selected.length = self.selected.length :=
    List.length_set
  rw [room, room, unresolved, unresolved, hlen]
  rfl

theorem SelectEffect.room {s t : Emerge} {parent : Option Nat} {atom : Atom}
    (h : SelectEffect s parent atom t)
    (hown : ∀ ebuild, s.portage.matchAtom atom = some (.ok (some ebuild)) →
      ebuild.packageKey = atom.key) : t.room ≤ s.room := by
  cases h with
  | same => exact le_rfl
  | @first ebuild hfound hnone =>
    rw [← hown ebuild hfound]
    have hfree : (s.created ebuild.packageKey
        { key := ebuild.packageKey, selectedEbuildSlots := [] } parent atom ebuild).free < s.free :=
      free_created (Portage.matchAtom_mem hfound) (.inl ⟨rfl, hnone⟩) parent atom
    have hun := unresolved_created s ebuild.packageKey
      { key := ebuild.packageKey, selectedEbuildSlots := [] } parent atom ebuild
    rw [Emerge.room, Emerge.room]
    omega
  | @slot ebuild pkg slot hfound hpkg hslot hfree =>
    have hfree' := free_created (Portage.matchAtom_mem hfound) (.inr ⟨hpkg, hslot ▸ hfree⟩) parent atom
    have hun := unresolved_created s ebuild.packageKey pkg parent atom ebuild
    rw [Emerge.room, Emerge.room]
    omega
  | changed hs candidate => exact Nat.le_of_eq (room_changed s _ _ candidate)

theorem SameButUse.room {self other : Emerge} (h : SameButUse self other) : other.room = self.room := by
  have hs : ∀ e : Emerge, e.room = e.settled.room := by
    intro e
    have hlen : e.settled.selected.length = e.selected.length := List.length_map _
    rw [Emerge.room, Emerge.room, unresolved, unresolved, hlen]
    rfl
  rw [hs self, hs other, h]

theorem room_session {self : Emerge} {sel : Nat} (h : sel ∉ self.resolveSession) :
    { self with resolveSession := sel :: self.resolveSession }.room ≤ self.room ∧
      (sel < self.selected.length →
        { self with resolveSession := sel :: self.resolveSession }.room < self.room) := by
  have hless : ∀ x ∈ List.range self.selected.length,
      decide (x ∉ sel :: self.resolveSession) = true → decide (x ∉ self.resolveSession) = true := by
    intro x _ hx
    rw [decide_eq_true_eq] at hx ⊢
    exact fun hmem => hx (List.mem_cons_of_mem _ hmem)
  refine ⟨Nat.add_le_add_left (List.countP_mono_left hless) _, fun hlt => ?_⟩
  refine Nat.add_lt_add_left (countP_lt_countP hless (List.mem_range.mpr hlt) ?_ ?_) _
  · exact decide_eq_true h
  · exact decide_eq_false (not_not.mpr List.mem_cons_self)

/-- From a state with the repository and files of `o` there comes another, with no
more room. -/
def Shrinks (o s t : Emerge) : Prop := s.portage = o.portage → s.cache = o.cache →
  t.portage = o.portage ∧ t.cache = o.cache ∧ t.room ≤ s.room

/-- The atom is matched by an ebuild of its own package, where by any. -/
def OwnMatch (self : Emerge) (atom : Atom) : Prop := ∀ ebuild,
  self.portage.matchAtom atom = some (.ok (some ebuild)) → ebuild.packageKey = atom.key

theorem SelectEffect.tables {s t : Emerge} {parent : Option Nat} {atom : Atom}
    (h : SelectEffect s parent atom t) : t.portage = s.portage ∧ t.cache = s.cache := by
  cases h <;> exact ⟨rfl, rfl⟩

end Emerge

theorem modifySel_shrinks (o : Emerge) (sel : Nat) (f : SelectedEbuild → SelectedEbuild) :
    Respects (Shrinks o) (modifySel sel f) := by
  intro s hp hc
  refine ⟨hp, hc, le_of_eq ?_⟩
  have hlen : (modifySel sel f s).2.selected.length = s.selected.length := List.length_modify _ _ _
  rw [room, room, unresolved, unresolved, hlen]
  rfl

theorem shrinks_frame {o : Emerge} (hown : o.OwnMatches) (loop : ForLoop) :
    Frame (selectAtomOver loop) (fun _ => True) o.OwnMatch (Shrinks o) where
  trans s t r h h' hp hc := by
    obtain ⟨hp', hc', hle⟩ := h hp hc
    obtain ⟨hp'', hc'', hle'⟩ := h' hp' hc'
    exact ⟨hp'', hc'', hle'.trans hle⟩
  use s t h hp hc := by
    have hs : s.settled.portage = t.settled.portage ∧ s.settled.cache = t.settled.cache := by
      rw [h]
      exact ⟨rfl, rfl⟩
    exact ⟨hs.1.symm.trans hp, hs.2.symm.trans hc, h.room.le⟩
  deps sel _ f _ := modifySel_shrinks o sel f
  session sel s _ hnot hp hc := ⟨hp, hc, (room_session hnot).1⟩
  skip sel s t h _ := absurd trivial h
  select parent atom hasks s hp hc := by
    rcases ofCall_state (selectAtomOver loop parent atom) s with he | ⟨a, t, h, he⟩
    · rw [he]
      exact ⟨hp, hc, le_rfl⟩
    · have heff := selectAtomOver_effect h
      rw [he]
      refine ⟨heff.tables.1.trans hp, heff.tables.2.trans hc, heff.room ?_⟩
      rw [hp]
      exact hasks
  files s ebuild := by
    by_cases hc : s.cache = o.cache
    · refine .inl fun i atom hatom => ?_
      rw [metadata] at hatom
      split_ifs at hatom with hread
      · rw [hc] at hatom
        exact hown ebuild.addr i atom hatom
      · have hblank : Metadata.blank.depTypes i = .null := by fin_cases i <;> rfl
        rw [hblank] at hatom
        exact absurd hatom (by simp [DependTree.topAtoms])
    · exact .inr fun t _ hc' => absurd hc' hc
  load ebuild s hp hc := ⟨hp, hc, le_rfl⟩

/-- No call of `select_atom` keeps a refresh from coming back. -/
theorem refreshIfDirty_ends (sel : Nat) : Avoids .diverged (refreshIfDirty selectOnce sel) := by
  intro s t h
  obtain ⟨q, -, hstop⟩ := (refreshIfDirty_blames fatal_diverged sel s).mp ⟨t, h⟩
  exact selectOnce_halts q.parent q.atom q.state hstop

theorem getSel_none {sel : Nat} {s : Emerge} (h : ¬ sel < s.selected.length) :
    getSel sel s = (.error (.raised .systemError), s) := by
  rw [getSel, List.getElem?_eq_none (Nat.le_of_not_lt h)]

theorem regenerate_none {fuel sel : Nat} {s : Emerge} (h : ¬ sel < s.selected.length) :
    regenerate selectOnce (fuel + 1) sel s = (.error (.raised .systemError), s) :=
  bind_of_error _ (bind_of_error _ (getSel_none h))

theorem getResolved_ends {o : Emerge} {fuel : Nat}
    (hends : ∀ sel s, s.portage = o.portage → s.cache = o.cache → s.room + 2 ≤ fuel → ∀ t,
      regenerate selectOnce fuel sel s ≠ (.error .diverged, t))
    {s : Emerge} (hp : s.portage = o.portage) (hc : s.cache = o.cache) (hroom : s.room + 1 ≤ fuel)
    (sel : Nat) (t : Emerge) :
    getResolved (regenerate selectOnce fuel) sel s ≠ (.error .diverged, t) := by
  intro h
  by_cases hmem : sel ∈ s.resolveSession
  · rw [getResolved_of_mem _ hmem] at h
    exact absurd (Prod.mk.inj h).1 (by simp)
  · rw [getResolved_of_notMem _ hmem] at h
    obtain ⟨-, hdrop⟩ := room_session hmem
    generalize hs : { s with resolveSession := sel :: s.resolveSession } = s' at h hdrop
    by_cases hlt : sel < s.selected.length
    · exact hends sel s' (hs ▸ hp) (hs ▸ hc) (by have := hdrop hlt; omega) t h
    · obtain ⟨fuel, rfl⟩ := Nat.exists_eq_add_of_lt (Nat.lt_of_lt_of_le (Nat.succ_pos _) hroom)
      rw [Nat.zero_add, regenerate_none (hs ▸ hlt)] at h
      exact absurd (Except.error.inj (Prod.mk.inj h).1) (by simp)

/-- Calls below one another use up the room. -/
theorem regenerate_ends {o : Emerge} (hown : o.OwnMatches) (fuel sel : Nat) (s : Emerge)
    (hp : s.portage = o.portage) (hc : s.cache = o.cache) (hroom : s.room + 2 ≤ fuel) (t : Emerge) :
    regenerate selectOnce fuel sel s ≠ (.error .diverged, t) := by
  induction fuel generalizing sel s t with
  | zero => exact absurd hroom (by omega)
  | succ fuel ih =>
    intro h
    have hframe := shrinks_frame hown visitOnce
    rcases bind_error h with h | ⟨_, v, hrefresh, h⟩
    · exact refreshIfDirty_ends sel s t h
    obtain ⟨hp, hc, hv⟩ := (hframe.refreshIfDirty trivial).ok hrefresh hp hc
    rcases bind_error h with h | ⟨_, u, hclear, h⟩
    · exact modifySel_avoids .diverged sel _ v t h
    obtain ⟨hp, hc, hu⟩ := (modifySel_shrinks o sel _).ok hclear hp hc
    rcases bind_error h with h | ⟨selected, w, hget, hloop⟩
    · exact (getSel_useOnly sel sel).ends .diverged fatal_diverged u t h
    obtain ⟨-, rfl⟩ := getSel_ok.mp hget
    -- the room left is what the state has before each turn
    let Inv (r : Emerge) : Prop := r.portage = o.portage ∧ r.cache = o.cache ∧ r.room ≤ s.room
    have hinv : Inv _ := ⟨hp, hc, hu.trans hv⟩
    refine forM_ne_error ?_ hinv t hloop
    rintro p - r ⟨hp, hc, hle⟩
    refine ⟨fun t' hturn => ?_, fun t' hturn => ?_⟩
    · rcases bind_error hturn with hres | ⟨_, r', -, hmod⟩
      · exact getResolved_ends ih hp hc (by omega) _ t' hres
      · exact modifySel_avoids .diverged sel _ r' t' hmod
    · obtain ⟨_, r', hres, hmod⟩ := bind_ok.mp hturn
      obtain ⟨hp, hc, hr'⟩ :=
        (hframe.getResolved (fun z hz => hframe.regenerate fuel hz) p.2.sel).ok hres hp hc
      obtain ⟨hp, hc, ht'⟩ := (modifySel_shrinks o sel _).ok hmod hp hc
      exact ⟨hp, hc, (ht'.trans hr').trans hle⟩

theorem getResolved_extends {regenerate regenerate' : Nat → Resolution Unit} {e : Stop}
    (h : ∀ sel, Extends e (regenerate sel) (regenerate' sel)) (sel : Nat) :
    Extends e (getResolved regenerate sel) (getResolved regenerate' sel) := by
  intro s hs
  by_cases hmem : sel ∈ s.resolveSession
  · rw [getResolved_of_mem _ hmem, getResolved_of_mem _ hmem]
  · rw [getResolved_of_notMem _ hmem] at hs ⊢
    rw [getResolved_of_notMem _ hmem]
    exact h sel _ hs

/-- More fuel changes nothing for a call that comes back. -/
theorem regenerate_extends (select : Select) (fuel sel : Nat) :
    Extends .diverged (regenerate select fuel sel) (regenerate select (fuel + 1) sel) := by
  induction fuel generalizing sel with
  | zero => exact fun s h => absurd rfl (h s)
  | succ fuel ih =>
    refine (extends_refl _).bind fun _ => (extends_refl _).bind fun _ => ?_
    refine (extends_refl _).bind fun selected => Extends.forM fun p => ?_
    refine Extends.bind ?_ fun _ => extends_refl _
    exact getResolved_extends ih p.2.sel

/-- No object is twice in the session, which lists one for each time
`get_resolved` calls `regenerate`. -/
theorem nodup_frame (loop : ForLoop) : Frame (selectAtomOver loop) (fun _ => True) (fun _ => True)
    (fun s t => s.resolveSession.Nodup → t.resolveSession.Nodup) where
  trans _ _ _ h h' hs := h' (h hs)
  use _ _ h hs := h.resolveSession ▸ hs
  deps _ _ _ _ _ hs := hs
  session _ _ _ hnot hs := List.nodup_cons.mpr ⟨hnot, hs⟩
  skip _ _ _ h := absurd trivial h
  files _ _ := .inl fun _ _ _ => trivial
  select parent atom _ s := by
    rcases ofCall_state (selectAtomOver loop parent atom) s with he | ⟨a, t, h, he⟩
    · rw [he]
      exact id
    · rw [he, (selectAtomOver_effect h).session]
      exact id
  load _ _ hs := hs

theorem changeWithinSlot_session (loop : ForLoop) (sel : Nat) (atom : Atom) (s : Emerge) :
    (ofCall (changeWithinSlotOver loop sel atom) s).2.resolveSession = s.resolveSession := by
  rcases ofCall_state (changeWithinSlotOver loop sel atom) s with he | ⟨a, t, h, he⟩
  · rw [he]
  · rw [he]
    rcases changeWithinSlotOver_ok h with rfl | ⟨selected, candidate, -, rfl⟩
    · rfl
    · rfl

theorem EmergeCall.nodup (loop : ForLoop) (call : EmergeCall) {s : Emerge}
    (hs : s.resolveSession.Nodup) : (call.step loop s).resolveSession.Nodup := by
  have hframe := nodup_frame loop
  have hregenerate (fuel sel : Nat) : Respects _ (AutoGentoo.regenerate (selectAtomOver loop) fuel sel) :=
    hframe.regenerate fuel trivial
  cases call with
  | addBlock atom => exact hs
  | selectAtom parent atom =>
    exact hframe.bind (hframe.select parent atom trivial) (fun _ => hframe.pure ()) s hs
  | changeWithinSlot sel atom =>
    refine hframe.bind (fun s hs => ?_) (fun _ => hframe.pure ()) s hs
    rw [changeWithinSlot_session]
    exact hs
  | regenerate fuel sel => exact hregenerate fuel sel s hs
  | getResolved fuel sel =>
    exact hframe.getResolved (fun z _ => hregenerate fuel z) sel s hs

/-- With so much fuel `get_resolved` comes back. -/
theorem getResolved_halts {s : Emerge} (hown : s.OwnMatches) (sel : Nat) :
    Halts (getResolved (regenerate selectOnce (s.room + 2)) sel s).1 := fun he =>
  getResolved_ends (regenerate_ends hown (s.room + 2)) (o := s) rfl rfl (by omega) sel _ (Prod.ext he rfl)

/-- What it ends with is the same with any more fuel. -/
theorem getResolved_mono {s : Emerge} {sel fuel n : Nat} (hle : fuel ≤ n)
    (h : Halts (getResolved (regenerate selectOnce fuel) sel s).1) :
    getResolved (regenerate selectOnce n) sel s = getResolved (regenerate selectOnce fuel) sel s := by
  induction n, hle using Nat.le_induction with
  | base => rfl
  | succ n _ ih =>
    refine (getResolved_extends (fun z => regenerate_extends selectOnce n z) sel s fun t' h' => ?_).trans ih
    rw [ih] at h'
    exact h (congrArg Prod.fst h')

/-- The call returns or raises, and more fuel gives the same. -/
def Emerge.Terminates (s : Emerge) (sel : Nat) : Prop :=
  ∃ n r, (r.1 = .ok () ∨ ∃ e, r.1 = .error (.raised e)) ∧
    ∀ fuel, n ≤ fuel → getResolved (regenerate selectOnce fuel) sel s = r

/-- The calls of `select_atom` that `get_resolved` comes to. -/
def Emerge.Asks (s : Emerge) (sel : Nat) (q : Ask) : Prop :=
  ∃ fuel, getResolvedAsks (regenerateAsks selectOnce fuel) sel s q

/-- The call comes back, unless a comparison of versions that it comes to is not defined; and
`regenerate` is entered once for an object of the session. -/
theorem getResolved_terminates_iff {s : Emerge} (hown : s.OwnMatches) (sel : Nat) :
    (s.Terminates sel ↔ ∀ q, s.Asks sel q → ¬ q.state.UndefinedOnce q.atom) ∧
      ∀ t, Reaches (fun s call => some (EmergeCall.step visitOnce s call)) (fun _ _ => True)
        { s with resolveSession := [] } t → t.resolveSession.Nodup := by
  have hblames (fuel : Nat) := getResolved_blames (@regenerate_blames selectOnce fuel) sel s
  refine ⟨⟨?_, fun hdefined => ?_⟩, fun t ht => ?_⟩
  · rintro ⟨n, r, hr, hn⟩ q ⟨fuel, hq⟩ hundefined
    obtain ⟨t, hstop⟩ := (hblames fuel).mpr ⟨q, hq, selectOnce_aborted_iff.mpr hundefined⟩
    have hlast := getResolved_mono (Nat.le_max_right n fuel) (by rw [hstop]; exact halts_aborted)
    rw [← hn _ (Nat.le_max_left n fuel), hlast, hstop] at hr
    rcases hr with hr | ⟨e, hr⟩
    · exact absurd hr (by simp)
    · exact absurd hr (by simp)
  · have hhalts := getResolved_halts hown sel
    refine ⟨s.room + 2, _, ?_, fun fuel hfuel => getResolved_mono hfuel hhalts⟩
    rcases hr : getResolved (regenerate selectOnce (s.room + 2)) sel s with ⟨stop | ⟨⟩, t⟩
    · rw [hr] at hhalts
      cases stop with
      | raised e => exact .inr ⟨e, rfl⟩
      | diverged => exact absurd rfl hhalts
      | aborted =>
        obtain ⟨q, hq, hundefined⟩ := (hblames (s.room + 2)).mp ⟨t, hr⟩
        exact absurd (selectOnce_aborted_iff.mp hundefined) (hdefined q ⟨_, hq⟩)
    · exact .inl rfl
  · refine ht.invariant (fun t => t.resolveSession.Nodup) List.nodup_nil ?_
    intro t call u hnodup _ hstep
    exact Option.some.inj hstep ▸ call.nodup visitOnce hnodup

/-- The object of `barEmerge` before the session. -/
def barStart (flags : UseHeap) (file : Metadata) : Emerge :=
  { barEmerge flags file with resolveSession := [] }

theorem barStart_portage (flags : UseHeap) (file : Metadata) :
    (barStart flags file).portage = SelectionRun.fooRepository := by
  rw [barStart, barEmerge, Emerge.init]

theorem ownMatches_bar {flags : UseHeap} {file : Metadata}
    (h : ∀ i, ∀ atom ∈ (file.depTypes i).topAtoms, (barStart flags file).OwnMatch atom) :
    (barStart flags file).OwnMatches := by
  intro addr i atom hatom
  by_cases haddr : addr = 9
  · subst haddr
    exact h i atom hatom
  · have hblank : ((barStart flags file).cache addr).fields = .blank := if_neg haddr
    rw [hblank] at hatom
    have hnull : Metadata.blank.depTypes i = .null := by fin_cases i <;> rfl
    rw [hnull] at hatom
    exact absurd hatom (by simp [DependTree.topAtoms])

theorem Emerge.Terminates.of_ok {s t : Emerge} {sel fuel : Nat}
    (h : getResolved (regenerate selectOnce fuel) sel s = (.ok (), t)) : s.Terminates sel :=
  ⟨fuel, _, .inl (by rw [h]), fun n hn => getResolved_mono hn (by rw [h]; exact halts_ok ())⟩

theorem getResolved_terminates_same :
    (barStart UseHeap.init sameEverywhere).Terminates 0 ∧
      ∀ q, (barStart UseHeap.init sameEverywhere).Asks 0 q → ¬ q.state.UndefinedOnce q.atom := by
  let foo := SelectionRun.fooRequest .all Package.foo10
  have hown : (barStart UseHeap.init sameEverywhere).OwnMatches := by
    refine ownMatches_bar fun i atom hatom ebuild hebuild => ?_
    have hkeys : ∀ i, ∀ atom ∈ (sameEverywhere.depTypes i).topAtoms, atom = foo := by
      decide +kernel
    have hfound : (SelectionRun.fooRepository.matchAtom foo).all
        (fun found => found.toOption.all fun e => e.all fun e => e.packageKey = foo.key) = true := by
      decide +kernel
    rw [hkeys i atom hatom] at hebuild ⊢
    rw [barStart_portage] at hebuild
    rw [hebuild] at hfound
    exact of_decide_eq_true hfound
  obtain ⟨⟨⟩, h⟩ := run_ok (c := getResolved (regenerate selectOnce 2) 0)
    (s := barStart UseHeap.init sameEverywhere) (by decide +kernel)
  have hends := Emerge.Terminates.of_ok h
  exact ⟨hends, (getResolved_terminates_iff hown 0).1.mp hends⟩

/-- `>=app-misc/foo` of a version of 128 zeros. -/
def zerosFile : Metadata :=
  let zeros : VersionText := { Package.foo10 with
    first := Digits.of (String.ofList (List.replicate 128 '0'))
    more := [] }
  { Metadata.blank with
    depend := .node .disable 0 (some (SelectionRun.fooRequest .ge zeros)) .null .null }

def aborts : Except Stop Unit → Bool
  | .error .aborted => true
  | _ => false

theorem zeros_aborts (fuel : Nat) :
    aborts (getResolved (regenerate selectOnce (fuel + 1)) 0 (barStart UseHeap.init zerosFile)).1 = true := by
  induction fuel with
  | zero => decide +kernel
  | succ fuel ih =>
    rw [getResolved_extends (fun z => regenerate_extends selectOnce (fuel + 1) z) 0 _ ?_, ih]
    intro t h
    rw [h] at ih
    exact absurd ih (by simp [aborts])

/-- The comparison with `2.0` needs a component of 128 characters. -/
theorem zeros_abort : ¬ ∀ s : Emerge, s.OwnMatches → ∀ sel, s.Terminates sel := by
  intro hall
  have haborts : ∀ i, ∀ atom ∈ (zerosFile.depTypes i).topAtoms,
      (SelectionRun.fooRepository.matchAtom atom).isNone = true := by
    decide +kernel
  have hown : (barStart UseHeap.init zerosFile).OwnMatches := by
    refine ownMatches_bar fun i atom hatom ebuild hebuild => ?_
    have hnone := haborts i atom hatom
    rw [barStart_portage] at hebuild
    rw [hebuild] at hnone
    exact absurd hnone (by simp)
  obtain ⟨n, r, hr, hn⟩ := hall _ hown 0
  have hr' := zeros_aborts n
  rw [hn (n + 1) (Nat.le_succ n)] at hr'
  rcases hr with hr | ⟨e, hr⟩
  · rw [hr] at hr'
    exact absurd hr' (by simp [aborts])
  · rw [hr] at hr'
    exact absurd hr' (by simp [aborts])

end AutoGentoo
