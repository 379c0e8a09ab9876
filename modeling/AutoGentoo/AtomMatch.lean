import AutoGentoo.Atom
import AutoGentoo.VersionOrder

/-! What the operators of an atom are documented to select, and for which
versions `atom_matches` selects just that. -/

namespace AutoGentoo

open CString ThreeWay

namespace VersionText

/-- The version without its `-rN`. -/
def base (t : VersionText) : VersionText := { t with revision := none }

def EqualUpToRevision (v t : VersionText) : Prop := compare v.base t.base = some 0

/-- The comments of `atom_version_t`, `t` being the version of the atom. -/
def Documented (v t : VersionText) : AtomRange → Prop
  | .e => compare v t = some 0
  | .l => ∃ d, compare v t = some d ∧ d < 0
  | .g => ∃ d, compare v t = some d ∧ 0 < d
  | .le => ∃ d, compare v t = some d ∧ d ≤ 0
  | .ge => ∃ d, compare v t = some d ∧ 0 ≤ d
  | .rev => EqualUpToRevision v t
  | .all => True

theorem base_loop (v t : VersionText) :
    EqualUpToRevision v t ↔ loop 0 v.parts t.parts = some 0 := by
  simp only [EqualUpToRevision, compare_eq]
  rfl

theorem revisionVal_bounds (t : VersionText) :
    -2 ^ 31 ≤ t.revisionVal ∧ t.revisionVal < 2 ^ 31 := by
  unfold revisionVal
  cases t.revision with
  | none => decide
  | some r => exact toI32_bounds _

theorem compare_eq_zero_iff (v t : VersionText) :
    compare v t = some 0 ↔ EqualUpToRevision v t ∧ v.revisionVal = t.revisionVal := by
  have hv := v.revisionVal_bounds
  have ht := t.revisionVal_bounds
  rw [compare_eq, loop_eq_zero_iff, base_loop, toI32_sub_eq_zero hv.1 hv.2 ht.1 ht.2]

theorem compare_zero_swap {v t : VersionText} (h : compare v t = some 0) :
    compare t v = some 0 := by
  rw [compare_eq_zero_iff, base_loop] at h
  rw [compare_eq_zero_iff, base_loop]
  exact ⟨loop_zero_swap h.1, h.2.symm⟩

theorem compare_isSome_iff (v t : VersionText) :
    (∃ d, compare v t = some d) ↔ Fits v.parts t.parts := by
  simp only [compare_eq, loop_isSome_iff]

theorem compare_swap {v t : VersionText} {d : Int} (h : compare t v = some d) :
    ∃ d', compare v t = some d' ∧ (d = 0 ↔ d' = 0) := by
  obtain ⟨d', hd⟩ := (compare_isSome_iff v t).mpr (fits_swap ((compare_isSome_iff t v).mp ⟨d, h⟩))
  refine ⟨d', hd, ?_, ?_⟩
  · rintro rfl
    exact Option.some.inj (hd.symm.trans (compare_zero_swap h))
  · rintro rfl
    exact Option.some.inj (h.symm.trans (compare_zero_swap hd))

/-- What each operator needs of the version `t` of the atom and `v`. -/
def OperatorExact (t v : VersionText) : AtomRange → Prop
  | .e => Fits t.parts v.parts
  | .all => Fits t.parts v.parts
  | .rev => Fits t.parts v.parts ∧ (EqualUpToRevision v t → v.revisionVal = t.revisionVal)
  | .l => Reversible t.revisionVal v.revisionVal t.parts v.parts
  | .g => Reversible t.revisionVal v.revisionVal t.parts v.parts
  | .le => Reversible t.revisionVal v.revisionVal t.parts v.parts
  | .ge => Reversible t.revisionVal v.revisionVal t.parts v.parts

end VersionText

open VersionText

/-- The answer of the masks to a result of the comparison. -/
def AtomRange.accepts (r : AtomRange) (d : Int) : Bool :=
  if d = 0 then r.has maskE else if 0 < d then r.has maskL else r.has maskG

theorem atomMatches_of_key {atom : Atom} {target : Ebuild} {t v : VersionText}
    (ha : atom.version = some (atomVersionInit t.render))
    (he : target.version = some (atomVersionInit v.render)) (hk : atom.key = target.packageKey) :
    atomMatches atom target = (compare t v).map atom.range.accepts := by
  rw [atomMatches, if_neg (not_not.mpr hk), ha, he]
  rfl

/-- The results, of the atom's version against the other one, that pass. -/
def AtomRange.Selects : AtomRange → Int → Prop
  | .e, d => d = 0
  | .l, d => 0 < d
  | .g, d => d < 0
  | .le, d => 0 ≤ d
  | .ge, d => d ≤ 0
  | .rev, d => d = 0
  | .all, _ => True

theorem accepts_iff (r : AtomRange) (d : Int) : r.accepts d = true ↔ r.Selects d := by
  unfold AtomRange.accepts
  cases r <;> split_ifs <;>
    simp [AtomRange.has, AtomRange.bits, AtomRange.maskE, AtomRange.maskL, AtomRange.maskG,
      AtomRange.Selects] <;> omega

/-- Of two results that vanish together, either sign tells the other. -/
theorem opposite_signs {d d' : Int} (h : d = 0 ↔ d' = 0) :
    (Opposite (some d) (some d') ↔ (0 < d ↔ d' < 0)) ∧
      (Opposite (some d) (some d') ↔ (d < 0 ↔ 0 < d')) := by
  rw [opposite_some]
  rcases lt_trichotomy d 0 with hd | hd | hd <;> rcases lt_trichotomy d' 0 with hd' | hd' | hd'
  all_goals first
    | omega
    | simp [hd, hd', Int.sign_eq_neg_one_of_neg, Int.sign_eq_one_of_pos, hd.not_gt, hd'.not_gt]

theorem selects_documented_iff {r : AtomRange} {t v : VersionText} {d d' : Int}
    (h : compare t v = some d) (h' : compare v t = some d') (h0 : d = 0 ↔ d' = 0) :
    (r.Selects d ↔ Documented v t r) ↔ OperatorExact t v r := by
  have hop := opposite_compare_iff t v
  rw [h, h'] at hop
  obtain ⟨hgt, hlt⟩ := opposite_signs h0
  have hfit := (compare_isSome_iff t v).mp ⟨d, h⟩
  have hzero := compare_eq_zero_iff v t
  rw [h', Option.some.injEq, ← h0] at hzero
  cases r <;> simp only [AtomRange.Selects, Documented, OperatorExact, h', Option.some.injEq,
    exists_eq_left', ← hop, hfit, true_and]
  · simp [h0]
  · exact hgt.symm
  · exact hlt.symm
  · rw [hzero, and_iff_left_iff_imp]
  · rw [hgt, ← not_lt, ← not_lt, not_iff_not]
  · rw [hlt, ← not_lt, ← not_lt, not_iff_not]

/-- Which atoms select just the versions the comments promise. -/
theorem atomMatches_documented_iff {atom : Atom} {target : Ebuild} {t v : VersionText}
    (ha : atom.version = some (atomVersionInit t.render))
    (he : target.version = some (atomVersionInit v.render)) :
    (∃ b, atomMatches atom target = some b ∧
        (b = true ↔ atom.key = target.packageKey ∧ Documented v t atom.range)) ↔
      (atom.key = target.packageKey → OperatorExact t v atom.range) := by
  by_cases hk : atom.key = target.packageKey
  · rw [atomMatches_of_key ha he hk]
    simp only [hk, true_and, true_implies]
    cases hc : compare t v with
    | none =>
      have hfit : ¬ Fits t.parts v.parts := by
        rw [← compare_isSome_iff, hc]
        simp
      have hrev : ¬ Reversible t.revisionVal v.revisionVal t.parts v.parts := by
        rw [← opposite_compare_iff, hc]
        exact not_opposite_none
      cases atom.range <;> simp [OperatorExact, hfit, hrev]
    | some d =>
      obtain ⟨d', hd, h0⟩ := compare_swap hc
      simp only [Option.map_some, Option.some.injEq, exists_eq_left', accepts_iff]
      exact selects_documented_iff hc hd h0
  · simp [atomMatches, hk]

/-- `app-misc/foo` with an operator in front and a version behind. -/
def fooAtom (range : AtomRange) (t : VersionText) : Atom where
  id := 0
  idFlag := 0
  cachedHash := 0
  category := "app-misc".toList
  name := "foo".toList
  key := "app-misc/foo".toList
  repository := none
  slot := none
  subSlot := none
  slotOpts := .ignore
  range := range
  blocks := .none
  version := some (atomVersionInit t.render)
  useflags := []

def fooEbuild (addr : Nat) (v : VersionText) : Ebuild where
  addr := addr
  name := "foo".toList
  category := "app-misc".toList
  packageId := 0
  key := "app-misc/foo-".toList ++ v.render
  packageKey := "app-misc/foo".toList
  cacheFile := "cache/app-misc/foo-".toList ++ v.render
  version := some (atomVersionInit v.render)

theorem atomMatches_documented_onePointTwo :
    ∃ b, atomMatches (fooAtom .ge onePointTwo) (fooEbuild 1 onePointTwo) = some b ∧
      (b = true ↔ (fooAtom .ge onePointTwo).key = (fooEbuild 1 onePointTwo).packageKey ∧
        Documented onePointTwo onePointTwo (fooAtom .ge onePointTwo).range) := by
  refine (atomMatches_documented_iff rfl rfl).mpr (fun _ => ?_)
  have h : compare onePointTwo onePointTwo = some 0 := by decide
  refine (opposite_compare_iff onePointTwo onePointTwo).mp ?_
  rw [h]
  exact opposite_neg 0

/-- `1.23` -/
def foo123 : VersionText where
  first := Digits.of "1"
  more := [Digits.of "23"]
  letter := none
  suffixes := []
  revision := none

/-- `1.23-r1` -/
def foo123r1 : VersionText := { foo123 with revision := some (Digits.of "1") }

theorem tilde_rejects_revision :
    atomMatches (fooAtom .rev foo123) (fooEbuild 1 foo123r1) = some false ∧
      ¬ ∀ (atom : Atom) (target : Ebuild) (t v : VersionText),
        atom.version = some (atomVersionInit t.render) →
        target.version = some (atomVersionInit v.render) →
        ∃ b, atomMatches atom target = some b ∧
          (b = true ↔ atom.key = target.packageKey ∧ Documented v t atom.range) := by
  have h : atomMatches (fooAtom .rev foo123) (fooEbuild 1 foo123r1) = some false := by decide
  refine ⟨h, fun hall => ?_⟩
  obtain ⟨b, hb, hiff⟩ := hall (fooAtom .rev foo123) (fooEbuild 1 foo123r1) foo123 foo123r1 rfl rfl
  obtain rfl : false = b := Option.some.inj (h.symm.trans hb)
  have hdoc : Documented foo123r1 foo123 .rev := by
    show compare foo123r1.base foo123.base = some 0
    decide
  exact absurd (hiff.mpr ⟨rfl, hdoc⟩) (by decide)

end AutoGentoo
