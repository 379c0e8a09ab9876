import AutoGentoo.VersionWalk
import Mathlib.Order.Compare

/-! The order that dotted numbers are to have: components from the left, whole numbers by
value and those with a leading zero as decimal fractions. The comparison computes it
while no number has more than nine digits. -/

namespace AutoGentoo

open CString VersionPart

namespace Reference

/-- A single `0` counts as none. -/
def LeadingZero (d : Digits) : Prop := d.1.head? = some '0' ∧ d.1.length ≠ 1

instance (d : Digits) : Decidable (LeadingZero d) := inferInstanceAs (Decidable (_ ∧ _))

/-- The digits behind a decimal point. -/
def fraction (d : Digits) : ℚ := digitsVal d.1 / 10 ^ d.1.length

def compareComponents (x y : Digits) : Ordering :=
  if LeadingZero x ∨ LeadingZero y then cmp (fraction x) (fraction y)
  else cmp (digitsVal x.1) (digitsVal y.1)

/-- The longer list is greater, and lists of one length are followed by the revisions. -/
def compareLists (r s : Nat) : List Digits → List Digits → Ordering
  | [], [] => cmp r s
  | [], _ :: _ => .lt
  | _ :: _, [] => .gt
  | x :: xs, y :: ys => (compareComponents x y).then (compareLists r s xs ys)

/-- What a component counts for, next to any other. -/
def value (d : Digits) : ℚ := if LeadingZero d then fraction d else digitsVal d.1

theorem fraction_lt {d : Digits} (h : LeadingZero d) : fraction d < 1 / 10 := by
  obtain ⟨_ | ⟨c, s⟩, hne, hs⟩ := d
  · exact absurd rfl hne
  · obtain rfl : c = '0' := Option.some.inj h.1
    have hless : digitsVal s < 10 ^ s.length := digitsVal_lt fun x hx => hs x (List.mem_cons_of_mem _ hx)
    have hzero : digitsVal ('0' :: s) = digitsVal s := rfl
    have hless' : (digitsVal s : ℚ) < 10 ^ s.length := by exact_mod_cast hless
    rw [fraction, hzero, List.length_cons, div_lt_div_iff₀ (by positivity) (by norm_num), pow_succ]
    linarith

theorem head_zero_iff {d : Digits} (h : ¬ LeadingZero d) : d.1.head? = some '0' ↔ digitsVal d.1 = 0 := by
  obtain ⟨_ | ⟨c, s⟩, hne, hs⟩ := d
  · exact absurd rfl hne
  · constructor
    · intro h0
      have hlength : (c :: s).length = 1 := not_not.mp fun hl => h ⟨h0, hl⟩
      obtain rfl : c = '0' := Option.some.inj h0
      obtain rfl : s = [] := List.length_eq_zero_iff.mp (by rw [List.length_cons] at hlength; omega)
      rfl
    · intro hzero
      by_contra h0
      have hc : c ≠ '0' := fun hc => h0 (congrArg some hc)
      have hle : 10 ^ s.length ≤ digitsVal (c :: s) := le_digitsVal (hs c List.mem_cons_self) hc
      have hpos : 0 < 10 ^ s.length := Nat.pow_pos (by decide)
      have hzero' : digitsVal (c :: s) = 0 := hzero
      omega

theorem le_fraction {d : Digits} (h : ¬ LeadingZero d) (h0 : digitsVal d.1 ≠ 0) : 1 / 10 ≤ fraction d := by
  have hhead := (head_zero_iff h).not.mpr h0
  obtain ⟨_ | ⟨c, s⟩, hne, hs⟩ := d
  · exact absurd rfl hne
  · have hc : c ≠ '0' := fun hc => hhead (congrArg some hc)
    have hle : 10 ^ s.length ≤ digitsVal (c :: s) := le_digitsVal (hs c List.mem_cons_self) hc
    have hle' : (10 : ℚ) ^ s.length ≤ digitsVal (c :: s) := by exact_mod_cast hle
    rw [fraction, List.length_cons, div_le_div_iff₀ (by norm_num) (by positivity), pow_succ]
    linarith

theorem value_of_leadingZero {d : Digits} (h : LeadingZero d) : value d = fraction d := if_pos h

theorem value_of_not {d : Digits} (h : ¬ LeadingZero d) : value d = digitsVal d.1 := if_neg h

/-- A number with a leading zero is below all whole numbers but 0, as a fraction too. -/
theorem cmp_mixed {x y : Digits} (hx : LeadingZero x) (hy : ¬ LeadingZero y) :
    cmp (fraction x) (fraction y) = cmp (fraction x) (value y) := by
  rw [value_of_not hy]
  by_cases h0 : digitsVal y.1 = 0
  · rw [fraction, fraction, h0, Nat.cast_zero, zero_div]
  · have hless := (fraction_lt hx).trans_le (le_fraction hy h0)
    have hone : (1 : ℚ) ≤ digitsVal y.1 := by exact_mod_cast Nat.one_le_iff_ne_zero.mpr h0
    have hless' : fraction x < digitsVal y.1 := by linarith [fraction_lt hx]
    rw [hless.cmp_eq_lt, hless'.cmp_eq_lt]

theorem compareComponents_eq (x y : Digits) : compareComponents x y = cmp (value x) (value y) := by
  rw [compareComponents]
  by_cases hx : LeadingZero x
  · rw [if_pos (.inl hx), value_of_leadingZero hx]
    by_cases hy : LeadingZero y
    · rw [value_of_leadingZero hy]
    · exact cmp_mixed hx hy
  · by_cases hy : LeadingZero y
    · rw [if_pos (.inr hy), value_of_leadingZero hy, ← cmp_swap (fraction y), cmp_mixed hy hx, cmp_swap]
    · rw [if_neg (not_or.mpr ⟨hx, hy⟩), value_of_not hx, value_of_not hy]
      exact (Nat.strictMono_cast.cmp_map_eq _ _).symm

theorem then_ne_gt {a b : ℚ} {o : Ordering} : (cmp a b).then o ≠ .gt ↔ a < b ∨ a = b ∧ o ≠ .gt := by
  rw [Ne, Ordering.then_eq_gt, cmp_eq_gt_iff, cmp_eq_eq_iff]
  rcases lt_trichotomy a b with h | h | h
  · simp [h, h.not_gt, h.ne]
  · simp [h]
  · simp [h, h.not_gt, h.ne']

theorem cmp_ne_gt {r s : Nat} : cmp r s ≠ .gt ↔ r ≤ s := by
  rw [Ne, cmp_eq_gt_iff, not_lt]

theorem compareLists_cons (r s : Nat) (x y : Digits) (xs ys : List Digits) :
    compareLists r s (x :: xs) (y :: ys) = (cmp (value x) (value y)).then (compareLists r s xs ys) := by
  rw [← compareComponents_eq]
  rfl

theorem compareLists_swap (r s : Nat) (xs ys : List Digits) :
    compareLists s r ys xs = (compareLists r s xs ys).swap := by
  induction xs generalizing ys with
  | nil =>
    cases ys with
    | nil => exact (cmp_swap r s).symm
    | cons y ys => rfl
  | cons x xs ih =>
    cases ys with
    | nil => rfl
    | cons y ys =>
      rw [compareLists_cons, compareLists_cons, ih, ← cmp_swap (value x) (value y)]
      cases cmp (value x) (value y) <;> rfl

theorem compareLists_trans {r s t : Nat} {xs ys zs : List Digits} (h : compareLists r s xs ys ≠ .gt)
    (h' : compareLists s t ys zs ≠ .gt) : compareLists r t xs zs ≠ .gt := by
  induction xs generalizing ys zs with
  | nil =>
    cases zs with
    | cons z zs => exact Ordering.noConfusion
    | nil =>
      cases ys with
      | cons y ys => exact absurd rfl h'
      | nil => exact cmp_ne_gt.mpr ((cmp_ne_gt.mp h).trans (cmp_ne_gt.mp h'))
  | cons x xs ih =>
    cases ys with
    | nil => exact absurd rfl h
    | cons y ys =>
      cases zs with
      | nil => exact absurd rfl h'
      | cons z zs =>
        rw [compareLists_cons, then_ne_gt] at h h' ⊢
        rcases h with hxy | ⟨hxy, h⟩
        · rcases h' with hyz | ⟨hyz, -⟩
          · exact .inl (hxy.trans hyz)
          · exact .inl (hyz ▸ hxy)
        · rcases h' with hyz | ⟨hyz, h'⟩
          · exact .inl (hxy ▸ hyz)
          · exact .inr ⟨hxy.trans hyz, ih h h'⟩

section Walk

variable {d : Digits} (hd : d.1.length ≤ 9)

theorem numeric_plain_iff : (numeric d none).Plain ↔ ¬ LeadingZero d := by
  rw [Plain, numeric_text_none, plainNumber, LeadingZero, not_and_or, not_not]

include hd in
theorem digitsVal_lt_pow (m : Nat) (hm : m ≤ 9) : digitsVal d.1 * 10 ^ (m - d.1.length) < 2 ^ 31 := by
  have hless := digitsVal_lt d.2.2
  by_cases hle : d.1.length ≤ m
  · have hpow : 10 ^ d.1.length * 10 ^ (m - d.1.length) = 10 ^ m := by
      rw [← pow_add]
      congr 1
      omega
    have hmul := Nat.mul_lt_mul_of_pos_right hless (Nat.pow_pos (n := m - d.1.length) (by decide : 0 < 10))
    have hnine : 10 ^ m ≤ 10 ^ 9 := Nat.pow_le_pow_right (by decide) hm
    omega
  · have hzero : m - d.1.length = 0 := by omega
    have hnine : 10 ^ d.1.length ≤ 10 ^ 9 := Nat.pow_le_pow_right (by decide) hd
    rw [hzero, pow_zero, mul_one]
    omega

include hd in
theorem number_lt : digitsVal d.1 < 2 ^ 31 := by
  have hless := digitsVal_lt_pow hd 0 (by omega)
  rwa [Nat.zero_sub, pow_zero, mul_one] at hless

include hd in
theorem rankNumber_eq : (numeric d none).rankNumber = value d := by
  by_cases hz : LeadingZero d
  · have hnot : ¬ (numeric d none).Plain := fun h => numeric_plain_iff.mp h hz
    rw [rankNumber, if_neg hnot, value_of_leadingZero hz]
    rfl
  · rw [rankNumber, if_pos (numeric_plain_iff.mpr hz), value_of_not hz, numeric_number, read_eq (number_lt hd)]
    exact Int.cast_natCast _

include hd in
/-- Nine digits fit an `int`, whatever is appended. -/
theorem numbersClear {e : Digits} (he : e.1.length ≤ 9) :
    NumbersClear (numeric d none) (numeric e none) := by
  have hdless := number_lt hd
  have heless := number_lt he
  refine numbersClear_of_aligned ?_
  rw [NumbersAligned]
  split_ifs
  · rw [numeric_number, numeric_number, read_eq hdless, read_eq heless]
    exact toI32_eq_self (by omega) (by omega)
  · simp only [paddedNumber_eq, shift, numeric_hasLetter, numeric_text_none, numeric_digits, numeric_number,
      Option.isSome_none, Bool.false_eq_true, if_false]
    refine ⟨by omega, digitsVal_lt_pow hd _ (by omega), digitsVal_lt_pow he _ (by omega), .inr (.inr ?_)⟩
    omega

end Walk

/-- The result has the sign of the order. -/
def SignOf (v : Int) (o : Ordering) : Prop := (v < 0 ↔ o = .lt) ∧ (0 < v ↔ o = .gt)

theorem loop_compareLists {r s : Nat} (hr : r < 2 ^ 31) (hs : s < 2 ^ 31) {xs ys : List Digits}
    (hxs : ∀ d ∈ xs, d.1.length ≤ 9) (hys : ∀ d ∈ ys, d.1.length ≤ 9) :
    ∃ v, VersionText.loop (toI32 ((r : Int) - s)) (xs.map fun d => numeric d none)
      (ys.map fun d => numeric d none) = some v ∧ SignOf v (compareLists r s xs ys) := by
  induction xs generalizing ys with
  | nil =>
    cases ys with
    | nil =>
      have hsub : toI32 ((r : Int) - s) = (r : Int) - s := toI32_eq_self (by omega) (by omega)
      have hnil : compareLists r s [] [] = cmp r s := rfl
      refine ⟨_, rfl, ?_⟩
      rw [hsub, SignOf, hnil, cmp_eq_lt_iff, cmp_eq_gt_iff]
      omega
    | cons y ys => exact ⟨-1, rfl, iff_of_true (by decide) rfl, iff_of_false (by decide) Ordering.noConfusion⟩
  | cons x xs ih =>
    cases ys with
    | nil => exact ⟨1, rfl, iff_of_false (by decide) Ordering.noConfusion, iff_of_true (by decide) rfl⟩
    | cons y ys =>
      have hx := hxs x List.mem_cons_self
      have hy := hys y List.mem_cons_self
      obtain ⟨n, hn, hlt, hgt⟩ := numbersClear hx hy
      rw [rankNumber_eq hx, rankNumber_eq hy] at hlt hgt
      obtain ⟨v, hv, hsign⟩ := ih (fun d hd => hxs d (List.mem_cons_of_mem x hd))
        fun d hd => hys d (List.mem_cons_of_mem y hd)
      have hpre : (numeric x none).pre = (numeric y none).pre := rfl
      rw [List.map_cons, List.map_cons, VersionText.loop_cons,
        step_numbers hpre (not_overtaken rfl _) (not_overtaken rfl _), hn, Option.map_some, Option.bind_some,
        hv, compareLists_cons]
      rcases lt_trichotomy (value x) (value y) with h | h | h
      · have hneg := hlt.mpr h
        rw [VersionText.finish_ne hneg.ne, h.cmp_eq_lt]
        exact ⟨_, rfl, by simp [SignOf, hneg, hneg.not_gt]⟩
      · have hzero : toI32 (n.1 - n.2) = 0 := by
          have hle := hlt.not.mpr h.not_lt
          have hge := hgt.not.mpr h.not_gt
          omega
        rw [hzero, h.cmp_eq_eq]
        exact ⟨v, rfl, hsign⟩
      · have hpos := hgt.mpr h
        rw [VersionText.finish_ne hpos.ne', h.cmp_eq_gt]
        exact ⟨_, rfl, by simp [SignOf, hpos, hpos.not_gt]⟩

end Reference

/-- `digits(.digits)*(-rN)?` with at most nine digits in a row. -/
structure RevisedVersion where
  first : DigitsUpTo 9
  more : List (DigitsUpTo 9)
  revision : Option (DigitsUpTo 9)

namespace RevisedVersion

def text (t : RevisedVersion) : VersionText where
  first := t.first.1
  more := t.more.map Subtype.val
  letter := none
  suffixes := []
  revision := t.revision.map Subtype.val

def components (t : RevisedVersion) : List Digits := t.first.1 :: t.more.map Subtype.val

/-- 0 where there is no revision. -/
def revisionNumber (t : RevisedVersion) : Nat := (t.revision.map fun r => digitsVal r.1.1).getD 0

/-- The order the versions are to have. -/
def order (s t : RevisedVersion) : Ordering :=
  Reference.compareLists s.revisionNumber t.revisionNumber s.components t.components

theorem text_parts (t : RevisedVersion) : t.text.parts = t.components.map fun d => numeric d none := by
  rw [VersionText.parts, text, List.map_nil, List.append_nil, VersionText.numericParts_none]
  rfl

theorem components_short (t : RevisedVersion) : ∀ d ∈ t.components, d.1.length ≤ 9 := by
  rw [components, ← List.map_cons]
  intro d hd
  obtain ⟨e, -, rfl⟩ := List.mem_map.mp hd
  exact e.2

theorem revisionNumber_lt (t : RevisedVersion) : t.revisionNumber < 2 ^ 31 := by
  rw [revisionNumber]
  cases t.revision with
  | none => decide
  | some r => exact Reference.number_lt r.2

theorem text_revisionVal (t : RevisedVersion) : t.text.revisionVal = t.revisionNumber := by
  obtain ⟨first, more, revision⟩ := t
  cases revision with
  | none => rfl
  | some r => exact read_eq (Reference.number_lt r.2)

/-- The comparison computes the order, and the order is a total preorder. -/
theorem compare_order :
    (∀ s t : RevisedVersion, ∃ v, VersionText.compare s.text t.text = some v ∧
        Reference.SignOf v (order s t)) ∧
      (∀ s t, order t s = (order s t).swap) ∧
      ∀ r s t, order r s ≠ .gt → order s t ≠ .gt → order r t ≠ .gt := by
  refine ⟨fun s t => ?_, fun s t => Reference.compareLists_swap _ _ _ _,
    fun r s t => Reference.compareLists_trans⟩
  rw [VersionText.compare_eq, text_parts, text_parts, text_revisionVal, text_revisionVal]
  exact Reference.loop_compareLists s.revisionNumber_lt t.revisionNumber_lt s.components_short
    t.components_short

end RevisedVersion

end AutoGentoo
