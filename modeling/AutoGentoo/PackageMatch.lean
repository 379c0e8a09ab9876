import AutoGentoo.Package
import AutoGentoo.Scan

/-! `Package.match_atom` against the first ebuild of the list that
`atom_matches` accepts. -/

namespace AutoGentoo

open CString ThreeWay VersionText Scan

namespace Package

def Matches (atom : Atom) (e : Ebuild) : Prop := atomMatches atom e = some true

instance (atom : Atom) (e : Ebuild) : Decidable (Matches atom e) :=
  inferInstanceAs (Decidable (_ = _))

def firstMatch (atom : Atom) (es : List Ebuild) : Option Ebuild := es.find? (Matches atom ·)

/-- The operator takes an ebuild that compares so with the version asked for. -/
def Takes (atom : Atom) (e : Ebuild) : Prop :=
  ∃ d, atomVersionCompare e.version atom.version = some d ∧ atom.range.Selects (-d)

/-- The ebuild is newer than the version asked for. -/
def Newer (atom : Atom) (e : Ebuild) : Prop :=
  ∃ d, atomVersionCompare e.version atom.version = some d ∧ 0 < d

/-- The operators `=` and `~`, which accept one version only. -/
def Pinned (range : AtomRange) : Prop := range = .e ∨ range = .rev

/-- The operator does not take the ebuild and, where it is `=` or `~`, the ebuild is not
newer. -/
def Skips (atom : Atom) (e : Ebuild) : Prop :=
  ∃ d, atomVersionCompare e.version atom.version = some d ∧ ¬ atom.range.Selects (-d) ∧
    (Pinned atom.range → d ≤ 0)

/-- The ebuild is of the package and its version is the one asked for. -/
def Asked (atom : Atom) (e : Ebuild) : Prop :=
  atom.key = e.packageKey ∧ atomVersionCompare atom.version e.version = some 0

/-- The comparison of the ebuild's version with the one asked for is defined, and the operator
reads it, its sign turned, as it reads the comparison the other way round. -/
def TellsAlike (atom : Atom) (e : Ebuild) : Prop :=
  ∃ d, atomVersionCompare e.version atom.version = some d ∧
    (atom.range.Selects (-d) ↔ atom.key = e.packageKey ∧
      ∃ d', atomVersionCompare atom.version e.version = some d' ∧ atom.range.Selects d')

/-- The two comparisons tell alike on every ebuild the walk comes to; and where, under `=` or
`~`, it comes to one that is newer, there is none of the version asked for behind it. -/
structure WalkExact (atom : Atom) (es : List Ebuild) : Prop where
  alike : ∀ e, Reached (Skips atom) es e → TellsAlike atom e
  uncovered : Pinned atom.range → ∀ x back, ReachedAt (Skips atom) es x back → Newer atom x →
    ∀ e ∈ back, ¬ Asked atom e

theorem passes_iff (r : AtomRange) (d : Int) : passes r d = true ↔ r.Selects (-d) := by
  cases r <;>
    simp [passes, AtomRange.Selects, AtomRange.has, AtomRange.bits, AtomRange.maskE,
      AtomRange.maskL, AtomRange.maskG] <;> omega

theorem break_iff {r : AtomRange} {d : Int} (hp : ¬ r.Selects (-d)) :
    (0 < d && !r.has AtomRange.maskL) = true ↔ Pinned r ∧ 0 < d := by
  cases r <;>
    simp [AtomRange.Selects, Pinned, AtomRange.has, AtomRange.bits, AtomRange.maskE,
      AtomRange.maskL, AtomRange.maskG] at hp ⊢ <;> omega

theorem matches_iff (atom : Atom) (e : Ebuild) : Matches atom e ↔ atom.key = e.packageKey ∧
    ∃ d, atomVersionCompare atom.version e.version = some d ∧ atom.range.Selects d := by
  rw [Matches, atomMatches]
  by_cases hk : atom.key = e.packageKey
  · rw [if_neg (not_not.mpr hk)]
    cases hc : atomVersionCompare atom.version e.version with
    | none => simp
    | some d =>
      simp only [hk, true_and, Option.some.injEq, exists_eq_left', ← accepts_iff]
      rw [AtomRange.accepts]
      simp
  · simp [hk]

theorem matchLoop_cons {atom : Atom} {e : Ebuild} {d : Int} (es : List Ebuild)
    (h : atomVersionCompare e.version atom.version = some d) :
    matchLoop atom (e :: es) =
      if passes atom.range d then some (some e)
      else if 0 < d && !atom.range.has AtomRange.maskL then some none
      else matchLoop atom es := by
  rw [matchLoop, h]
  rfl

/-- What one turn of the walk does. -/
theorem matchLoop_turn (atom : Atom) (e : Ebuild) (es : List Ebuild) :
    (atomVersionCompare e.version atom.version = none ∧ matchLoop atom (e :: es) = none) ∨
      (Takes atom e ∧ matchLoop atom (e :: es) = some (some e)) ∨
      (Skips atom e ∧ matchLoop atom (e :: es) = matchLoop atom es) ∨
      (¬ Takes atom e ∧ Pinned atom.range ∧ Newer atom e ∧ matchLoop atom (e :: es) = some none) := by
  cases hd : atomVersionCompare e.version atom.version with
  | none =>
    refine .inl ⟨rfl, ?_⟩
    rw [matchLoop, hd]
    rfl
  | some d =>
    rw [matchLoop_cons es hd]
    by_cases hp : atom.range.Selects (-d)
    · exact .inr (.inl ⟨⟨d, hd, hp⟩, if_pos ((passes_iff _ _).mpr hp)⟩)
    · have hnot : ¬ Takes atom e := by
        rintro ⟨d', hd', ht⟩
        rw [hd, Option.some.injEq] at hd'
        exact hp (hd' ▸ ht)
      rw [if_neg (mt (passes_iff _ _).mp hp)]
      by_cases hb : Pinned atom.range ∧ 0 < d
      · exact .inr (.inr (.inr ⟨hnot, hb.1, ⟨d, hd, hb.2⟩, if_pos ((break_iff hp).mpr hb)⟩))
      · refine .inr (.inr (.inl ⟨⟨d, hd, hp, fun hpin => ?_⟩, if_neg (mt (break_iff hp).mp hb)⟩))
        exact not_lt.mp fun hpos => hb ⟨hpin, hpos⟩

theorem skips_defined {atom : Atom} {e : Ebuild} (h : Skips atom e) :
    atomVersionCompare e.version atom.version ≠ none := by
  obtain ⟨d, hd, -⟩ := h
  simp [hd]

theorem not_takes_of_skips {atom : Atom} {e : Ebuild} (h : Skips atom e) : ¬ Takes atom e := by
  obtain ⟨d, hd, hnot, -⟩ := h
  rintro ⟨d', hd', ht⟩
  rw [hd, Option.some.injEq] at hd'
  exact hnot (hd' ▸ ht)

theorem not_newer_of_skips {atom : Atom} {e : Ebuild} (h : Skips atom e) (hpin : Pinned atom.range) :
    ¬ Newer atom e := by
  obtain ⟨d, hd, -, hold⟩ := h
  rintro ⟨d', hd', hpos⟩
  rw [hd, Option.some.injEq] at hd'
  exact absurd (hold hpin) (not_le.mpr (hd' ▸ hpos))

theorem not_newer_of_takes {atom : Atom} {e : Ebuild} (h : Takes atom e) (hpin : Pinned atom.range) :
    ¬ Newer atom e := by
  obtain ⟨d, hd, ht⟩ := h
  rintro ⟨d', hd', hpos⟩
  rw [hd, Option.some.injEq] at hd'
  have hzero : -d = 0 := by
    rcases hpin with hr | hr <;> simpa [hr, AtomRange.Selects] using ht
  omega

/-- The walk returns the ebuild it comes to that the operator takes. -/
theorem matchLoop_some_iff {atom : Atom} {es : List Ebuild} {e : Ebuild} :
    matchLoop atom es = some (some e) ↔ Reached (Skips atom) es e ∧ Takes atom e := by
  induction es with
  | nil => exact ⟨fun h => absurd h (by simp [matchLoop]), fun h => absurd h.1 not_reached_nil⟩
  | cons x es ih =>
    rw [reached_cons]
    rcases matchLoop_turn atom x es with ⟨hnone, he⟩ | ⟨htakes, he⟩ | ⟨hskips, he⟩ | ⟨hnot, hpin, hnew, he⟩
    · rw [he]
      refine iff_of_false (by simp) ?_
      rintro ⟨rfl | ⟨hskips, -⟩, htakes⟩
      · obtain ⟨d, hd, -⟩ := htakes
        exact absurd (hnone.symm.trans hd) (by simp)
      · exact skips_defined hskips hnone
    · rw [he, Option.some.injEq, Option.some.injEq]
      constructor
      · rintro rfl
        exact ⟨.inl rfl, htakes⟩
      · rintro ⟨rfl | ⟨hskips, -⟩, -⟩
        · rfl
        · exact absurd htakes (not_takes_of_skips hskips)
    · rw [he, ih]
      constructor
      · exact fun h => ⟨.inr ⟨hskips, h.1⟩, h.2⟩
      · rintro ⟨rfl | ⟨-, h⟩, htakes⟩
        · exact absurd htakes (not_takes_of_skips hskips)
        · exact ⟨h, htakes⟩
    · rw [he]
      refine iff_of_false (by simp) ?_
      rintro ⟨rfl | ⟨hskips, -⟩, htakes⟩
      · exact hnot htakes
      · exact not_newer_of_skips hskips hpin hnew

/-- The walk ends with a comparison that is not defined. -/
theorem matchLoop_none_iff {atom : Atom} {es : List Ebuild} : matchLoop atom es = none ↔
    ∃ e, Reached (Skips atom) es e ∧ atomVersionCompare e.version atom.version = none := by
  induction es with
  | nil => exact ⟨fun h => absurd h (by simp [matchLoop]), fun ⟨_, h, _⟩ => absurd h not_reached_nil⟩
  | cons x es ih =>
    have hcons : (∃ e, Reached (Skips atom) (x :: es) e ∧ atomVersionCompare e.version atom.version = none) ↔
        atomVersionCompare x.version atom.version = none ∨
          (Skips atom x ∧ ∃ e, Reached (Skips atom) es e ∧ atomVersionCompare e.version atom.version = none) := by
      simp only [reached_cons, or_and_right, exists_or, exists_eq_left', and_assoc, exists_and_left]
    rw [hcons]
    rcases matchLoop_turn atom x es with ⟨hnone, he⟩ | ⟨htakes, he⟩ | ⟨hskips, he⟩ | ⟨hnot, hpin, hnew, he⟩
    · rw [he]
      exact iff_of_true rfl (.inl hnone)
    · rw [he]
      obtain ⟨d, hd, -⟩ := id htakes
      refine iff_of_false (by simp) ?_
      rintro (hnone | ⟨hskips, -⟩)
      · exact absurd (hnone.symm.trans hd) (by simp)
      · exact not_takes_of_skips hskips htakes
    · rw [he, ih]
      constructor
      · exact fun h => .inr ⟨hskips, h⟩
      · rintro (hnone | ⟨-, h⟩)
        · exact absurd hnone (skips_defined hskips)
        · exact h
    · rw [he]
      obtain ⟨d, hd, -⟩ := id hnew
      refine iff_of_false (by simp) ?_
      rintro (hnone | ⟨hskips, -⟩)
      · exact absurd (hnone.symm.trans hd) (by simp)
      · exact not_newer_of_skips hskips hpin hnew

theorem walkExact_nil (atom : Atom) : WalkExact atom [] :=
  ⟨fun _ h => absurd h not_reached_nil, fun _ _ _ h => absurd h not_reachedAt_nil⟩

theorem walkExact_cons {atom : Atom} {x : Ebuild} {es : List Ebuild} : WalkExact atom (x :: es) ↔
    TellsAlike atom x ∧ (Pinned atom.range → Newer atom x → ∀ e ∈ es, ¬ Asked atom e) ∧
      (Skips atom x → WalkExact atom es) := by
  constructor
  · rintro ⟨halike, huncovered⟩
    refine ⟨halike x (reached_cons.mpr (.inl rfl)), fun hpin hnew => ?_, fun hskips => ⟨fun e he => ?_, ?_⟩⟩
    · exact huncovered hpin x es (reachedAt_cons.mpr (.inl ⟨rfl, rfl⟩)) hnew
    · exact halike e (reached_cons.mpr (.inr ⟨hskips, he⟩))
    · exact fun hpin y back hy => huncovered hpin y back (reachedAt_cons.mpr (.inr ⟨hskips, hy⟩))
  · rintro ⟨halike, huncovered, hrest⟩
    refine ⟨fun e he => ?_, fun hpin y back hy hnew => ?_⟩
    · rcases reached_cons.mp he with rfl | ⟨hskips, he⟩
      · exact halike
      · exact (hrest hskips).alike e he
    · rcases reachedAt_cons.mp hy with ⟨rfl, rfl⟩ | ⟨hskips, hy⟩
      · exact huncovered hpin hnew
      · exact (hrest hskips).uncovered hpin y back hy hnew

theorem tellsAlike_iff_matches {atom : Atom} {e : Ebuild} {d : Int}
    (hd : atomVersionCompare e.version atom.version = some d) :
    TellsAlike atom e ↔ (Takes atom e ↔ Matches atom e) := by
  rw [TellsAlike, Takes, matches_iff]
  simp only [hd, Option.some.injEq, exists_eq_left']

theorem asked_iff_matches {atom : Atom} (hpin : Pinned atom.range) (e : Ebuild) :
    Asked atom e ↔ Matches atom e := by
  rw [Asked, matches_iff]
  rcases hpin with h | h <;> simp [h, AtomRange.Selects]

theorem matchLoop_firstMatch_iff (atom : Atom) (es : List Ebuild) :
    matchLoop atom es = some (firstMatch atom es) ↔ WalkExact atom es := by
  induction es with
  | nil => exact iff_of_true rfl (walkExact_nil atom)
  | cons x es ih =>
    have hfirst : firstMatch atom (x :: es) = if Matches atom x then some x else firstMatch atom es := by
      rw [firstMatch, List.find?_cons]
      by_cases hm : Matches atom x <;> simp [hm, firstMatch]
    rw [walkExact_cons, hfirst]
    rcases matchLoop_turn atom x es with ⟨hnone, he⟩ | ⟨htakes, he⟩ | ⟨hskips, he⟩ | ⟨hnot, hpin, hnew, he⟩
    · rw [he]
      refine iff_of_false (by simp) ?_
      rintro ⟨⟨d, hd, -⟩, -⟩
      exact absurd (hnone.symm.trans hd) (by simp)
    · obtain ⟨d, hd, -⟩ := id htakes
      have hskips : ¬ Skips atom x := fun h => not_takes_of_skips h htakes
      have hnewer : Pinned atom.range → ¬ Newer atom x := not_newer_of_takes htakes
      rw [he, tellsAlike_iff_matches hd, iff_true_left htakes]
      split_ifs with hm
      · exact iff_of_true rfl ⟨hm, fun hpin hnew => absurd hnew (hnewer hpin), fun h => absurd h hskips⟩
      · refine iff_of_false (fun h => hm ?_) fun h => hm h.1
        have hx := List.find?_some (Option.some.inj h).symm
        exact of_decide_eq_true hx
    · obtain ⟨d, hd, -⟩ := id hskips
      have htakes := not_takes_of_skips hskips
      rw [he, tellsAlike_iff_matches hd, iff_false_left htakes]
      split_ifs with hm
      · refine iff_of_false (fun h => htakes ?_) fun h => h.1 hm
        exact (matchLoop_some_iff.mp h).2
      · rw [ih]
        refine ⟨fun h => ⟨hm, fun hpin hnew => absurd hnew (not_newer_of_skips hskips hpin), fun _ => h⟩, fun h => h.2.2 hskips⟩
    · obtain ⟨d, hd, -⟩ := id hnew
      have hskips : ¬ Skips atom x := fun h => not_newer_of_skips h hpin hnew
      rw [he, tellsAlike_iff_matches hd, iff_false_left hnot]
      split_ifs with hm
      · exact iff_of_false (by simp) fun h => h.1 hm
      · simp only [asked_iff_matches hpin]
        rw [Option.some.injEq, eq_comm, firstMatch, List.find?_eq_none]
        simp [hm, hpin, hnew, hskips]

/-- The masks treat `~` as `=`. -/
def asCompared : AtomRange → AtomRange
  | .rev => .e
  | r => r

theorem selects_asCompared (r : AtomRange) (d : Int) :
    r.Selects d ↔ (asCompared r).Selects d := by
  cases r <;> rfl

theorem selects_documented {v t : VersionText} {d : Int} (h : compare v t = some d) (r : AtomRange) :
    r.Selects (-d) ↔ Documented v t (asCompared r) := by
  cases r <;> simp [AtomRange.Selects, asCompared, Documented, h]

/-- On versions of the grammar the two comparisons tell alike just where the operator is
exact. -/
theorem tellsAlike_iff {atom : Atom} {e : Ebuild} {t v : VersionText}
    (ha : atom.version = some (atomVersionInit t.render))
    (he : e.version = some (atomVersionInit v.render)) (hk : atom.key = e.packageKey) :
    TellsAlike atom e ↔ OperatorExact t v (asCompared atom.range) := by
  have hc : atomVersionCompare e.version atom.version = compare v t := by rw [ha, he]; rfl
  have hc' : atomVersionCompare atom.version e.version = compare t v := by rw [ha, he]; rfl
  rw [TellsAlike, hc, hc']
  cases h : compare t v with
  | none =>
    have hfit : ¬ Fits t.parts v.parts := by
      rw [← compare_isSome_iff, h]
      simp
    have hrev : ¬ Reversible t.revisionVal v.revisionVal t.parts v.parts := by
      rw [← opposite_compare_iff, h]
      exact not_opposite_none
    have hnone : compare v t = none := by
      by_contra hs
      obtain ⟨d, hd⟩ := Option.ne_none_iff_exists'.mp hs
      exact hfit (fits_swap ((compare_isSome_iff v t).mp ⟨d, hd⟩))
    cases atom.range <;> simp [hnone, asCompared, OperatorExact, hfit, hrev]
  | some d =>
    obtain ⟨d', hd, h0⟩ := compare_swap h
    rw [← selects_documented_iff h hd h0]
    simp only [hd, Option.some.injEq, exists_eq_left', hk, true_and, selects_documented hd,
      ← selects_asCompared]
    exact Iff.comm

/-- When the walk returns the first ebuild that `atom_matches` accepts; for versions of the
grammar, in terms of the operator. -/
theorem matchAtom_firstMatch_iff (self : Package) (atom : Atom) :
    (matchAtom self atom = some (firstMatch atom self.ebuilds) ↔ WalkExact atom self.ebuilds) ∧
      ∀ (e : Ebuild) (t v : VersionText), atom.version = some (atomVersionInit t.render) →
        e.version = some (atomVersionInit v.render) → atom.key = e.packageKey →
        (TellsAlike atom e ↔ OperatorExact t v (asCompared atom.range)) :=
  ⟨matchLoop_firstMatch_iff atom self.ebuilds, fun _ _ _ ha he hk => tellsAlike_iff ha he hk⟩

/-- The chain `2.0`, `1.0`. -/
def fooTwo : Package := fooPackage [fooEbuild 2 foo20, fooEbuild 1 foo10]

theorem break_hides_match :
    matchAtom fooTwo (fooAtom .e foo10) = some none ∧
      Matches (fooAtom .e foo10) (fooEbuild 1 foo10) ∧
      ¬ ∀ (self : Package) (atom : Atom),
        self.ebuilds.Pairwise (fun x y => ∃ d, atomVersionCompare x.version y.version = some d ∧
          0 ≤ d) →
        (∀ e ∈ self.ebuilds, e.packageKey = self.key) → atom.key = self.key →
        matchAtom self atom = some (firstMatch atom self.ebuilds) := by
  have h : matchAtom fooTwo (fooAtom .e foo10) = some none := by decide
  have hm : Matches (fooAtom .e foo10) (fooEbuild 1 foo10) := by decide
  refine ⟨h, hm, fun hall => ?_⟩
  have hsorted : atomVersionCompare (fooEbuild 2 foo20).version (fooEbuild 1 foo10).version =
      some 1 := by decide
  have hs := hall fooTwo (fooAtom .e foo10) (by simp [fooTwo, fooPackage, hsorted])
    (by simp [fooTwo, fooPackage, fooEbuild]) rfl
  rw [h] at hs
  have hnone := List.find?_eq_none.mp (Option.some.inj hs).symm (fooEbuild 1 foo10)
    (by simp [fooTwo, fooPackage])
  exact hnone (by simpa using hm)

end Package

end AutoGentoo
