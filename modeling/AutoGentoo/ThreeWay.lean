import Mathlib.Data.List.Lex
import Mathlib.Order.Basic
import Mathlib.Algebra.Order.Ring.Int

/-! Three-way comparison results, possibly undefined, and what it takes for
them to come from an order: opposite results for swapped arguments, and
results that report how two ranks of a linear order compare. -/

namespace ThreeWay

/-- Both results are defined and of opposite sign, or both zero. -/
def Opposite (a b : Option Int) : Prop :=
  ∃ x y, a = some x ∧ b = some y ∧ x.sign = -y.sign

/-- `a`, `b` and `c` compare `x` with `y`, `y` with `z` and `x` with `z`. -/
def Transitive (a b c : Option Int) : Prop :=
  ∃ x y z, a = some x ∧ b = some y ∧ c = some z ∧ (x ≤ 0 → y ≤ 0 → z ≤ 0)

variable {α : Type*} [LinearOrder α]

def Reports (c : Option Int) (x y : α) : Prop :=
  ∃ v, c = some v ∧ (v < 0 ↔ x < y) ∧ (0 < v ↔ y < x)

theorem opposite_some {x y : Int} : Opposite (some x) (some y) ↔ x.sign = -y.sign := by
  simp [Opposite]

theorem not_opposite_none {b : Option Int} : ¬ Opposite none b := by
  simp [Opposite]

theorem opposite_neg (x : Int) : Opposite (some x) (some (-x)) := by
  simp [opposite_some]

theorem not_opposite_of_neg {x y : Int} (hx : x < 0) (hy : y < 0) :
    ¬ Opposite (some x) (some y) := by
  rw [opposite_some, Int.sign_eq_neg_one_of_neg hx, Int.sign_eq_neg_one_of_neg hy]
  decide

theorem Reports.transitive {a b c : Option Int} {x y z : α} (h : Reports a x y)
    (h' : Reports b y z) (h'' : Reports c x z) : Transitive a b c := by
  obtain ⟨u, hu, -, hgt⟩ := h
  obtain ⟨v, hv, -, hgt'⟩ := h'
  obtain ⟨w, hw, -, hgt''⟩ := h''
  refine ⟨u, v, w, hu, hv, hw, fun hle hle' => ?_⟩
  have hxy : x ≤ y := not_lt.mp (fun hlt => absurd (hgt.mpr hlt) (by omega))
  have hyz : y ≤ z := not_lt.mp (fun hlt => absurd (hgt'.mpr hlt) (by omega))
  by_contra hpos
  exact absurd (hgt''.mp (by omega)) (not_lt.mpr (hxy.trans hyz))

theorem reports_lt {v : Int} {x y : α} (hv : v < 0) (h : x < y) : Reports (some v) x y :=
  ⟨v, rfl, iff_of_true hv h, iff_of_false hv.not_gt h.not_gt⟩

theorem reports_gt {v : Int} {x y : α} (hv : 0 < v) (h : y < x) : Reports (some v) x y :=
  ⟨v, rfl, iff_of_false hv.not_gt h.not_gt, iff_of_true hv h⟩

theorem reports_neg_iff {v : Int} {x y : α} (hv : v < 0) : Reports (some v) x y ↔ x < y := by
  constructor
  · rintro ⟨w, hw, hlt, -⟩
    exact hlt.mp (Option.some.inj hw ▸ hv)
  · exact reports_lt hv

theorem reports_pos_iff {v : Int} {x y : α} (hv : 0 < v) : Reports (some v) x y ↔ y < x := by
  constructor
  · rintro ⟨w, hw, -, hgt⟩
    exact hgt.mp (Option.some.inj hw ▸ hv)
  · exact reports_gt hv

theorem not_reports_none {x y : α} : ¬ Reports none x y := by
  rintro ⟨v, hv, -⟩
  exact absurd hv (by simp)

theorem reports_cons_lt {v : Int} {a b : α} (hv : v < 0) (h : a < b) (l m : List α) :
    Reports (some v) (a :: l) (b :: m) :=
  reports_lt hv (List.cons_lt_cons_iff.mpr (.inl h))

theorem reports_cons_gt {v : Int} {a b : α} (hv : 0 < v) (h : b < a) (l m : List α) :
    Reports (some v) (a :: l) (b :: m) :=
  reports_gt hv (List.cons_lt_cons_iff.mpr (.inl h))

theorem Reports.cons {c : Option Int} {l m : List α} (h : Reports c l m) (a : α) :
    Reports c (a :: l) (a :: m) := by
  obtain ⟨v, hv, hlt, hgt⟩ := h
  exact ⟨v, hv, by rw [hlt, List.cons_lt_cons_self], by rw [hgt, List.cons_lt_cons_self]⟩

/-- Lexicographic comparison, one component at a time. -/
theorem reports_lex {c : Option Int} {a b : α} {l m : List α}
    (hlt : a < b → ∃ v, c = some v ∧ v < 0) (hgt : b < a → ∃ v, c = some v ∧ 0 < v)
    (heq : a = b → Reports c l m) : Reports c (a :: l) (b :: m) := by
  rcases lt_trichotomy a b with h | h | h
  · obtain ⟨v, rfl, hv⟩ := hlt h
    exact reports_cons_lt hv h l m
  · rw [← h]
    exact (heq h).cons a
  · obtain ⟨v, rfl, hv⟩ := hgt h
    exact reports_cons_gt hv h l m

theorem Reports.singleton {c : Option Int} {x y : α} (h : Reports c x y) :
    Reports c [x] [y] := by
  obtain ⟨v, rfl, hlt, hgt⟩ := h
  rcases lt_trichotomy x y with hxy | rfl | hxy
  · exact reports_cons_lt (hlt.mpr hxy) hxy [] []
  · exact ⟨v, rfl, by simp [hlt], by simp [hgt]⟩
  · exact reports_cons_gt (hgt.mpr hxy) hxy [] []

end ThreeWay
