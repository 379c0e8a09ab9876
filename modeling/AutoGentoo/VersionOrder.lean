import AutoGentoo.VersionReversal
import Mathlib.Algebra.Order.Field.Rat
import Mathlib.Tactic.FieldSimp
import Mathlib.Tactic.Positivity

/-! A rank for versions that the comparison follows wherever its early rules do
not contradict the numbers, so that it is transitive there. -/

namespace AutoGentoo

open CString ThreeWay

namespace VersionPart

/-- How many zeros are appended, unless a letter keeps them from counting. -/
def shift (x : VersionPart) (m : Nat) : Nat :=
  if x.hasLetter then 0 else m - x.text.length

theorem paddedNumber_eq (x : VersionPart) (m : Nat) :
    x.paddedNumber m = x.number * 10 ^ x.shift m := by
  cases h : x.hasLetter <;> simp [paddedNumber, shift, h]

/-- A number of its own, or the digits behind a decimal point. -/
def rankNumber (x : VersionPart) : ℚ :=
  if x.Plain then (read x.number : ℚ) else x.number / 10 ^ x.digits.1.length

/-- The 32-bit difference of the numbers, as they are padded and read, has the sign of the
difference of what they stand for. -/
def NumbersClear (x y : VersionPart) : Prop :=
  ∃ n, numbers x y = some n ∧ (toI32 (n.1 - n.2) < 0 ↔ x.rankNumber < y.rankNumber) ∧
    (0 < toI32 (n.1 - n.2) ↔ y.rankNumber < x.rankNumber)

instance (x y : VersionPart) : Decidable (NumbersClear x y) :=
  decidable_of_iff ((numbers x y).any fun n => decide ((toI32 (n.1 - n.2) < 0 ↔ x.rankNumber < y.rankNumber) ∧
    (0 < toI32 (n.1 - n.2) ↔ y.rankNumber < x.rankNumber)))
    (by simp only [Option.any_eq_true, decide_eq_true_eq, NumbersClear])

/-- The numbers are read whole, and where zeros are appended they align the
digits of both. -/
def NumbersAligned (x y : VersionPart) : Prop :=
  if x.Plain ∧ y.Plain then
    toI32 (read x.number - read y.number) = read x.number - read y.number
  else
    let m := max x.text.length y.text.length
    m < 128 ∧ x.paddedNumber m < 2 ^ 31 ∧ y.paddedNumber m < 2 ^ 31 ∧
      (x.number = 0 ∨ y.number = 0 ∨
        x.digits.1.length + x.shift m = y.digits.1.length + y.shift m)

theorem read_eq {n : Nat} (h : n < 2 ^ 31) : read n = n := by
  have hc : clampLong n = n := by
    unfold clampLong
    omega
  rw [read, hc]
  exact toI32_eq_self (by omega) (by omega)

theorem number_le_padded (x : VersionPart) (m : Nat) : x.number ≤ x.paddedNumber m := by
  rw [paddedNumber_eq]
  exact Nat.le_mul_of_pos_right _ (by positivity)

/-- A plain number other than zero fills its digits. -/
theorem plain_lower {x : VersionPart} (h : x.Plain) (h0 : x.number ≠ 0) :
    10 ^ x.digits.1.length ≤ 10 * x.number := by
  obtain ⟨_, ⟨s, hs⟩, ⟨l, hl⟩, hne⟩ := x
  cases s with
  | nil => exact absurd rfl h0
  | cons c s =>
    have hc : c ≠ '0' := by
      rintro rfl
      rcases h with h | h
      · simp [VersionPart.text] at h
      · have hs' : s = [] := by
          simp only [VersionPart.text, List.cons_append, List.length_cons, List.length_append] at h
          exact List.length_eq_zero_iff.mp (by omega)
        exact h0 (by simp [number, hs', digitsVal, digitVal])
    have hh := le_digitsVal (s := s) (hs c (by simp)) hc
    simp only [number, List.length_cons, pow_succ]
    omega

theorem not_plain_upper {x : VersionPart} (h : ¬ x.Plain) :
    10 * x.number < 10 ^ x.digits.1.length := by
  obtain ⟨_, ⟨s, hs⟩, ⟨l, hl⟩, hne⟩ := x
  simp only [Plain, plainNumber, VersionPart.text, not_or, not_not] at h
  cases s with
  | nil =>
    cases l with
    | nil => exact absurd rfl hne
    | cons c l =>
      have hc := hl c (by simp)
      rw [show c = '0' by simpa using h.1] at hc
      exact absurd hc (by decide)
  | cons c s =>
    obtain rfl : c = '0' := by simpa using h.1
    have hh := digitsVal_lt (s := s) (fun x hx => hs x (by simp [hx]))
    have hz : digitsVal ('0' :: s) = digitsVal s := by simp [digitsVal, digitVal]
    simp only [number, hz, List.length_cons, pow_succ]
    omega

theorem rank_eq_zero {x : VersionPart} (h : x.number = 0) : x.rankNumber = 0 := by
  have hr : read 0 = 0 := by decide
  simp [rankNumber, h, hr]

theorem rank_pos {x : VersionPart} (h : x.number ≠ 0) (hb : x.number < 2 ^ 31) :
    0 < x.rankNumber := by
  have hn : (0 : ℚ) < x.number := by exact_mod_cast Nat.pos_of_ne_zero h
  unfold rankNumber
  split_ifs
  · rw [read_eq hb]
    exact_mod_cast hn
  · positivity

theorem rank_plain {x : VersionPart} (h : x.Plain) (hb : x.number < 2 ^ 31) :
    x.rankNumber = x.number := by
  rw [rankNumber, if_pos h, read_eq hb]
  norm_cast

theorem rank_not_plain {x : VersionPart} (h : ¬ x.Plain) :
    x.rankNumber * 10 ^ x.digits.1.length = x.number := by
  rw [rankNumber, if_neg h]
  field_simp

/-- The leading zero of one and the leading digit of the other decide. -/
theorem padded_lt_of_plain {x y : VersionPart} {m : Nat} (hx : ¬ x.Plain) (hy : y.Plain)
    (h0 : y.number ≠ 0) (hb : y.number < 2 ^ 31)
    (he : x.digits.1.length + x.shift m = y.digits.1.length + y.shift m) :
    x.paddedNumber m < y.paddedNumber m ∧ x.rankNumber < y.rankNumber := by
  have hu := not_plain_upper hx
  have hl := plain_lower hy h0
  constructor
  · have hpx : 0 < 10 ^ x.shift m := by positivity
    have hlt := Nat.mul_lt_mul_of_pos_right hu hpx
    have hle := Nat.mul_le_mul_right (10 ^ y.shift m) hl
    rw [← pow_add] at hlt hle
    rw [he] at hlt
    rw [paddedNumber_eq, paddedNumber_eq]
    have hfin := hlt.trans_le hle
    rw [mul_assoc, mul_assoc] at hfin
    omega
  · have hr := rank_not_plain hx
    have hy1 : (1 : ℚ) ≤ y.number := by exact_mod_cast Nat.pos_of_ne_zero h0
    have hu' : (10 : ℚ) * x.number < 10 ^ x.digits.1.length := by exact_mod_cast hu
    have hp : (0 : ℚ) < 10 ^ x.digits.1.length := by positivity
    rw [rank_plain hy hb]
    refine lt_of_lt_of_le ?_ hy1
    rw [← hr] at hu'
    by_contra hge
    nlinarith

theorem padded_eq_rank {x : VersionPart} (m : Nat) (h : ¬ x.Plain) :
    (x.paddedNumber m : ℚ) = x.rankNumber * 10 ^ (x.digits.1.length + x.shift m) := by
  rw [paddedNumber_eq, pow_add, ← mul_assoc, rank_not_plain h]
  push_cast
  ring

/-- Padded numbers order as the ranks do. -/
theorem padded_reports {x y : VersionPart} {m : Nat} (hp : ¬ (x.Plain ∧ y.Plain))
    (hx : x.paddedNumber m < 2 ^ 31) (hy : y.paddedNumber m < 2 ^ 31)
    (hs : x.number = 0 ∨ y.number = 0 ∨
      x.digits.1.length + x.shift m = y.digits.1.length + y.shift m) :
    (x.paddedNumber m < y.paddedNumber m ↔ x.rankNumber < y.rankNumber) ∧
      (y.paddedNumber m < x.paddedNumber m ↔ y.rankNumber < x.rankNumber) := by
  have hbx := (number_le_padded x m).trans_lt hx
  have hby := (number_le_padded y m).trans_lt hy
  have hzero : ∀ z : VersionPart, z.number = 0 → z.paddedNumber m = 0 := by
    intro z hz
    simp [paddedNumber_eq, hz]
  have hpos : ∀ z : VersionPart, z.number ≠ 0 → 0 < z.paddedNumber m :=
    fun z hz => (Nat.pos_of_ne_zero hz).trans_le (number_le_padded z m)
  by_cases hx0 : x.number = 0
  · rw [hzero x hx0, rank_eq_zero hx0]
    by_cases hy0 : y.number = 0
    · simp [hzero y hy0, rank_eq_zero hy0]
    · have hr := rank_pos hy0 hby
      exact ⟨iff_of_true (hpos y hy0) hr, iff_of_false (by omega) hr.not_gt⟩
  by_cases hy0 : y.number = 0
  · have hr := rank_pos hx0 hbx
    rw [hzero y hy0, rank_eq_zero hy0]
    exact ⟨iff_of_false (by omega) hr.not_gt, iff_of_true (hpos x hx0) hr⟩
  have he : x.digits.1.length + x.shift m = y.digits.1.length + y.shift m := by tauto
  by_cases hpx : x.Plain
  · have hpy : ¬ y.Plain := fun h => hp ⟨hpx, h⟩
    obtain ⟨hn, hr⟩ := padded_lt_of_plain hpy hpx hx0 hbx he.symm
    exact ⟨iff_of_false (by omega) hr.not_gt, iff_of_true hn hr⟩
  by_cases hpy : y.Plain
  · obtain ⟨hn, hr⟩ := padded_lt_of_plain hpx hpy hy0 hby he
    exact ⟨iff_of_true hn hr, iff_of_false (by omega) hr.not_gt⟩
  have hscale : (0 : ℚ) < 10 ^ (y.digits.1.length + y.shift m) := by positivity
  have hx' := padded_eq_rank m hpx
  have hy' := padded_eq_rank m hpy
  rw [he] at hx'
  rw [← Nat.cast_lt (α := ℚ), ← Nat.cast_lt (α := ℚ), hx', hy']
  exact ⟨mul_lt_mul_iff_left₀ hscale, mul_lt_mul_iff_left₀ hscale⟩

theorem numbersClear_of_aligned {x y : VersionPart} (h : NumbersAligned x y) : NumbersClear x y := by
  unfold NumbersAligned at h
  by_cases hp : x.Plain ∧ y.Plain
  · rw [if_pos hp] at h
    refine ⟨_, if_pos hp, ?_⟩
    simp only [h, rankNumber, if_pos hp.1, if_pos hp.2, Int.cast_lt]
    omega
  · rw [if_neg hp] at h
    obtain ⟨hm, hx, hy, hs⟩ := h
    have hn : numbers x y = some (read (x.paddedNumber (max x.text.length y.text.length)),
        read (y.paddedNumber (max x.text.length y.text.length))) := by
      simp only [numbers, if_neg hp, if_pos hm]
    obtain ⟨hlt, hgt⟩ := padded_reports hp hx hy hs
    refine ⟨_, hn, ?_⟩
    simp only [read_eq hx, read_eq hy]
    rw [toI32_eq_self (by omega) (by omega), ← hlt, ← hgt]
    omega

/-- Behind equal numbers: a last component, then a lettered one, and at the
end a component that another one follows. -/
def rankClass (x : VersionPart) (xNext : Bool) : Nat :=
  match xNext, x.hasLetter with
  | false, false => 0
  | false, true => 1
  | true, true => 2
  | true, false => 3

def rank (x : VersionPart) (xNext : Bool) : List ℚ :=
  [(x.pre.val : ℚ), x.rankNumber, (x.rankClass xNext : ℚ), (x.letterVal : ℚ)]

theorem letterVal_of_false {x : VersionPart} (h : x.hasLetter = false) : x.letterVal = 0 := by
  simp [letterVal, (letters_nil_iff x).mp h]

theorem letterVal_pos {x : VersionPart} (h : x.hasLetter = true) : 0 < x.letterVal := by
  have hne : x.letters.1 ≠ [] := by simpa [hasLetter] using h
  have hc := isAlpha_cases (x.letters.2 _ (List.getLast_mem hne))
  simp only [letterVal, List.getLast?_eq_some_getLast hne]
  rw [charVal_ascii (by omega)]
  omega

theorem rankClass_overtaken {x y : VersionPart} {xNext yNext : Bool} (hx : Overtaken x yNext)
    (hy : ¬ Overtaken y xNext) : x.rankClass xNext < y.rankClass yNext := by
  obtain ⟨rfl, hl⟩ := hx
  simp only [Overtaken] at hy
  cases xNext <;> cases hl' : y.hasLetter <;> simp_all [rankClass]

theorem no_letter_of_rankClass_lt {x y : VersionPart} {xNext yNext : Bool}
    (hx : ¬ Overtaken x yNext) (h : x.rankClass xNext < y.rankClass yNext) :
    x.hasLetter = false := by
  simp only [Overtaken] at hx
  cases xNext <;> cases yNext <;> cases hl : x.hasLetter <;> cases hl' : y.hasLetter <;>
    simp_all [rankClass]

theorem hasLetter_eq {x y : VersionPart} (h : x.letterVal = y.letterVal) :
    x.hasLetter = y.hasLetter := by
  cases hx : x.hasLetter <;> cases hy : y.hasLetter
  · rfl
  · have h0 := letterVal_of_false hx
    have h1 := letterVal_pos hy
    omega
  · have h0 := letterVal_of_false hy
    have h1 := letterVal_pos hx
    omega
  · rfl

theorem rankClass_shorter {x y : VersionPart} (hx : ¬ Overtaken x true)
    (h : x.hasLetter = y.hasLetter) : x.rankClass false < y.rankClass true := by
  have hl : x.hasLetter = false := by simpa [Overtaken] using hx
  simp [rankClass, hl, ← h]

theorem letterVal_lt {x y : VersionPart} {xNext yNext : Bool} (hx : ¬ Overtaken x yNext)
    (h : x.rankClass xNext < y.rankClass yNext) (hne : x.letterVal ≠ y.letterVal) :
    x.letterVal < y.letterVal := by
  have hl := no_letter_of_rankClass_lt hx h
  have h0 := letterVal_of_false hl
  cases hy : y.hasLetter with
  | false => exact absurd (h0.trans (letterVal_of_false hy).symm) hne
  | true =>
    have h1 := letterVal_pos hy
    omega

end VersionPart

namespace VersionText

open VersionPart

/-- Walking both lists as the comparison does: a letter decides against the
component that goes on only where the numbers do not say otherwise, and the
numbers compared are clear. -/
def Clear (r s : Int) : List VersionPart → List VersionPart → Prop
  | [], [] => toI32 (r - s) = r - s
  | [], _ :: _ => True
  | _ :: _, [] => True
  | x :: xs, y :: ys => x.pre = y.pre →
    ¬ (Overtaken x (!ys.isEmpty) ∧ Overtaken y (!xs.isEmpty)) ∧
      (Overtaken x (!ys.isEmpty) → x.rankNumber ≤ y.rankNumber) ∧
      (Overtaken y (!xs.isEmpty) → y.rankNumber ≤ x.rankNumber) ∧
      (¬ Overtaken x (!ys.isEmpty) → ¬ Overtaken y (!xs.isEmpty) →
        NumbersClear x y ∧
          (x.rankNumber = y.rankNumber → x.letterVal = y.letterVal → Clear r s xs ys))

instance Clear.decidable (r s : Int) : (xs ys : List VersionPart) → Decidable (Clear r s xs ys)
  | [], [] => inferInstanceAs (Decidable (_ = _))
  | [], _ :: _ => isTrue trivial
  | _ :: _, [] => isTrue trivial
  | x :: xs, y :: ys =>
    have : Decidable (Clear r s xs ys) := Clear.decidable r s xs ys
    inferInstanceAs (Decidable (x.pre = y.pre → _ ∧ _ ∧ _ ∧ (_ → _ → _ ∧ (_ → _ → Clear r s xs ys))))

def rank (r : Int) : List VersionPart → List ℚ
  | [] => [(r : ℚ)]
  | x :: xs => x.rank (!xs.isEmpty) ++ rank r xs

theorem reports_revision {r s : Int} (h : toI32 (r - s) = r - s) :
    Reports (some (toI32 (r - s))) (rank r []) (rank s []) := by
  refine Reports.singleton ⟨_, rfl, ?_⟩
  rw [h, Int.cast_lt, Int.cast_lt]
  omega

/-- Behind equal prefixes and numbers, with no number skipped. -/
theorem reports_letters {r s : Int} {x y : VersionPart} {xs ys : List VersionPart}
    (hx : ¬ Overtaken x (!ys.isEmpty)) (hy : ¬ Overtaken y (!xs.isEmpty))
    (ih : x.letterVal = y.letterVal → xs.isEmpty = ys.isEmpty →
      Reports (loop (toI32 (r - s)) xs ys) (rank r xs) (rank s ys)) :
    Reports (resume (loop (toI32 (r - s)) xs ys)
        (finishStep false 0 (x.letterVal - y.letterVal)))
      ((x.rankClass (!xs.isEmpty) : ℚ) :: (x.letterVal : ℚ) :: rank r xs)
      ((y.rankClass (!ys.isEmpty) : ℚ) :: (y.letterVal : ℚ) :: rank s ys) := by
  by_cases hl : x.letterVal = y.letterVal
  · have hlet := hasLetter_eq hl
    have hf : finishStep false 0 0 = .next := by decide
    rw [sub_eq_zero_of_eq hl, hf, resume]
    have hsame : xs.isEmpty = ys.isEmpty →
        Reports (loop (toI32 (r - s)) xs ys)
          ((x.rankClass (!xs.isEmpty) : ℚ) :: (x.letterVal : ℚ) :: rank r xs)
          ((y.rankClass (!ys.isEmpty) : ℚ) :: (y.letterVal : ℚ) :: rank s ys) := by
      intro he
      have hc : x.rankClass (!xs.isEmpty) = y.rankClass (!ys.isEmpty) := by
        simp only [rankClass, hlet, he]
      rw [hc, hl]
      exact ((ih hl he).cons _).cons _
    cases xs with
    | nil =>
      cases ys with
      | nil => exact hsame rfl
      | cons z zs =>
        have hlt := rankClass_shorter hx hlet
        exact reports_cons_lt (by decide) (by exact_mod_cast hlt) _ _
    | cons z zs =>
      cases ys with
      | nil =>
        have hlt := rankClass_shorter hy hlet.symm
        exact reports_cons_gt (by decide) (by exact_mod_cast hlt) _ _
      | cons w ws => exact hsame rfl
  · have hd : x.letterVal - y.letterVal ≠ 0 := sub_ne_zero.mpr hl
    rw [finish_suf hd, resume]
    refine reports_lex (fun h => ?_) (fun h => ?_) (fun _ => reports_lex (fun h => ?_)
      (fun h => ?_) (fun h => absurd (by exact_mod_cast h) hl))
    · exact ⟨_, rfl, sub_neg.mpr (letterVal_lt hx (by exact_mod_cast h) hl)⟩
    · exact ⟨_, rfl, sub_pos.mpr (letterVal_lt hy (by exact_mod_cast h) (Ne.symm hl))⟩
    · exact ⟨_, rfl, sub_neg.mpr (by exact_mod_cast h)⟩
    · exact ⟨_, rfl, sub_pos.mpr (by exact_mod_cast h)⟩

theorem reports_loop {r s : Int} {xs ys : List VersionPart} (h : Clear r s xs ys)
    (he : xs.isEmpty = ys.isEmpty) :
    Reports (loop (toI32 (r - s)) xs ys) (rank r xs) (rank s ys) := by
  induction xs generalizing ys with
  | nil =>
    cases ys with
    | nil => exact reports_revision h
    | cons y ys => exact absurd he (by simp)
  | cons x xs ih =>
    cases ys with
    | nil => exact absurd he (by simp)
    | cons y ys =>
      rw [loop_cons]
      refine reports_lex (fun hp => ?_) (fun hp => ?_) (fun hp => ?_)
      · have hp : x.pre.val < y.pre.val := by exact_mod_cast hp
        have hne : x.pre ≠ y.pre := fun he => absurd (congrArg AtomPrefix.val he) hp.ne
        rw [step_pre hne]
        exact ⟨_, rfl, sub_neg.mpr hp⟩
      · have hp : y.pre.val < x.pre.val := by exact_mod_cast hp
        have hne : x.pre ≠ y.pre := fun he => absurd (congrArg AtomPrefix.val he) hp.ne'
        rw [step_pre hne]
        exact ⟨_, rfl, sub_pos.mpr hp⟩
      have hp : x.pre = y.pre := AtomPrefix.val_injective (by exact_mod_cast hp)
      obtain ⟨hboth, hx', hy', hrec⟩ := h hp
      by_cases hx : Overtaken x (!ys.isEmpty)
      · have hy : ¬ Overtaken y (!xs.isEmpty) := fun hy => hboth ⟨hx, hy⟩
        have hlt := rankClass_overtaken hx hy
        rw [step_overtaken hp hx]
        refine reports_lex (fun _ => ⟨_, rfl, by decide⟩) (fun hgt => absurd (hx' hx) hgt.not_ge)
          (fun _ => reports_cons_lt (by decide) (by exact_mod_cast hlt) _ _)
      by_cases hy : Overtaken y (!xs.isEmpty)
      · have hlt := rankClass_overtaken hy hx
        rw [step_overtakes hp hx hy]
        refine reports_lex (fun hgt => absurd (hy' hy) hgt.not_ge) (fun _ => ⟨_, rfl, by decide⟩)
          (fun _ => reports_cons_gt (by decide) (by exact_mod_cast hlt) _ _)
      obtain ⟨hclear, hrest⟩ := hrec hx hy
      obtain ⟨n, hnum, hlt, hgt⟩ := hclear
      rw [step_numbers hp hx hy, hnum, Option.map_some, Option.bind_some]
      refine reports_lex (fun h => ?_) (fun h => ?_) (fun h => ?_)
      · rw [finish_ne (hlt.mpr h).ne]
        exact ⟨_, rfl, hlt.mpr h⟩
      · rw [finish_ne (hgt.mpr h).ne']
        exact ⟨_, rfl, hgt.mpr h⟩
      · have hz : toI32 (n.1 - n.2) = 0 := by
          have h1 := hlt.not.mpr h.not_lt
          have h2 := hgt.not.mpr h.not_gt
          omega
        rw [hz]
        exact reports_letters hx hy (fun hl he => ih (hrest h hl) he)

/-- The walk of the comparison of two versions meets no early rule that the
numbers contradict. -/
def ClearPair (s t : VersionText) : Prop := Clear s.revisionVal t.revisionVal s.parts t.parts

instance (s t : VersionText) : Decidable (ClearPair s t) := inferInstanceAs (Decidable (Clear _ _ _ _))

theorem reports_compare {s t : VersionText} (h : ClearPair s t) :
    Reports (compare s t) (rank s.revisionVal s.parts) (rank t.revisionVal t.parts) := by
  rw [compare_eq]
  refine reports_loop h ?_
  simp [List.isEmpty_eq_false_iff.mpr s.parts_ne_nil, List.isEmpty_eq_false_iff.mpr t.parts_ne_nil]

theorem opposite_compare_iff (s t : VersionText) :
    Opposite (compare s t) (compare t s) ↔
      Reversible s.revisionVal t.revisionVal s.parts t.parts := by
  rw [compare_eq, compare_eq, opposite_loop_iff]

theorem compare_self_iff (t : VersionText) : compare t t = some 0 ↔ SelfComparable t.parts := by
  rw [compare_eq, sub_self]
  exact loop_self_iff t.parts

/-- The laws of a total preorder, for the comparisons among three versions. -/
def PreorderAt (a b c : VersionText) : Prop :=
  compare a a = some 0 ∧ Opposite (compare a b) (compare b a) ∧
    Transitive (compare a b) (compare b c) (compare a c)

/-- Which of the laws hold: the first two exactly, the third wherever the three
walks meet no rule that contradicts the numbers. -/
theorem compare_preorder_iff (a b c : VersionText) :
    (compare a a = some 0 ↔ SelfComparable a.parts) ∧
      (Opposite (compare a b) (compare b a) ↔
        Reversible a.revisionVal b.revisionVal a.parts b.parts) ∧
      (ClearPair a b → ClearPair b c → ClearPair a c →
        Transitive (compare a b) (compare b c) (compare a c)) := by
  refine ⟨compare_self_iff a, opposite_compare_iff a b, fun hab hbc hac => ?_⟩
  exact (reports_compare hab).transitive (reports_compare hbc) (reports_compare hac)

/-- `1.2` -/
def onePointTwo : VersionText where
  first := Digits.of "1"
  more := [Digits.of "2"]
  letter := none
  suffixes := []
  revision := none

/-- `1.02` -/
def zeroTwo : VersionText := { onePointTwo with more := [Digits.of "02"] }

/-- `1.3b` -/
def threeLettered : VersionText := { onePointTwo with more := [Digits.of "3"], letter := some ⟨'b', by decide⟩ }

/-- `1.3.1` -/
def threeOne : VersionText := { onePointTwo with more := [Digits.of "3", Digits.of "1"] }

/-- A leading zero, a letter, and a letter overtaken by a longer version. -/
theorem compare_preorder_threeLettered : Transitive (compare zeroTwo threeLettered)
    (compare threeLettered threeOne) (compare zeroTwo threeOne) := by
  refine (compare_preorder_iff zeroTwo threeLettered threeOne).2.2 ?_ ?_ ?_
  · decide +kernel
  · decide +kernel
  · decide +kernel

/-- `1a_p1` -/
def letteredPatch : VersionText where
  first := Digits.of "1"
  more := []
  letter := some ⟨'a', by decide⟩
  suffixes := [(.p, (Digits.of "1").optional)]
  revision := none

theorem letteredPatch_not_preorder :
    compare letteredPatch letteredPatch = some (-1) ∧ ¬ ∀ a b c, PreorderAt a b c := by
  have h : compare letteredPatch letteredPatch = some (-1) := by decide
  refine ⟨h, fun hall => ?_⟩
  obtain ⟨hself, -⟩ := hall letteredPatch letteredPatch letteredPatch
  rw [h] at hself
  exact absurd hself (by decide)

end VersionText

end AutoGentoo
