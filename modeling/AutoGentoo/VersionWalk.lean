import AutoGentoo.VersionOrder

/-! Walks over components that both versions share, and the components of numbers. -/

namespace AutoGentoo

open CString ThreeWay

abbrev DigitsUpTo (n : Nat) := { d : Digits // d.1.length ≤ n }

namespace VersionPart

/-- Compared with itself the component lets the walk go on. -/
def Passable (x : VersionPart) : Prop := x.hasLetter = false ∧ (x.Plain ∨ x.text.length < 128)

theorem not_overtaken {x : VersionPart} (h : x.hasLetter = false) (yNext : Bool) :
    ¬ Overtaken x yNext := by
  rintro ⟨-, hletter⟩
  exact Bool.false_ne_true (h.symm.trans hletter)

theorem finish_equal (n : Int) (x : VersionPart) :
    finishStep false (toI32 (n - n)) (x.letterVal - x.letterVal) = .next := by
  rw [sub_self, sub_self]
  rfl

theorem step_passable {x : VersionPart} (h : x.Passable) (xNext yNext : Bool) :
    step x x xNext yNext = some .next := by
  obtain ⟨n, hn, he⟩ := (VersionText.numbers_self x).mpr h.2
  rw [step_numbers rfl (not_overtaken h.1 yNext) (not_overtaken h.1 xNext), hn, Option.map_some, he,
    finish_equal]

theorem numbers_padded {x y : VersionPart} {m : Nat} (h : ¬ (x.Plain ∧ y.Plain))
    (hm : max x.text.length y.text.length = m) :
    numbers x y = if m < 128 then some (read (x.paddedNumber m), read (y.paddedNumber m)) else none := by
  rw [← hm]
  exact if_neg h

theorem numbers_self_none {x : VersionPart} (h : ¬ (x.Plain ∨ x.text.length < 128)) :
    numbers x x = none := by
  rw [not_or] at h
  rw [numbers_padded (fun hp => h.1 hp.1) (max_self _), if_neg h.2]

theorem step_stuck {x : VersionPart} (hl : x.hasLetter = false) (h : ¬ x.Passable) (xNext yNext : Bool) :
    step x x xNext yNext = none := by
  have hnone : numbers x x = none := numbers_self_none fun hfit => h ⟨hl, hfit⟩
  rw [step_numbers rfl (not_overtaken hl yNext) (not_overtaken hl xNext), hnone, Option.map_none]

/-- Two numbers that fit an `int` are subtracted as they are. -/
theorem step_plain {x y : VersionPart} (hp : x.pre = y.pre) (hx : x.hasLetter = false)
    (hy : y.hasLetter = false) (hpx : x.Plain) (hpy : y.Plain) (hbx : x.number < 2 ^ 31)
    (hby : y.number < 2 ^ 31) (xNext yNext : Bool) :
    step x y xNext yNext = some (finishStep false ((x.number : Int) - y.number) 0) := by
  have hn : numbers x y = some ((x.number : Int), (y.number : Int)) := by
    rw [numbers, if_pos ⟨hpx, hpy⟩, read_eq hbx, read_eq hby]
  have hsub : toI32 ((x.number : Int) - y.number) = (x.number : Int) - y.number :=
    toI32_eq_self (by omega) (by omega)
  rw [step_numbers hp (not_overtaken hx yNext) (not_overtaken hy xNext), hn, Option.map_some, hsub,
    letterVal_of_false hx, letterVal_of_false hy, sub_self]

section Numeric

variable (d : Digits) (l : Option Letter)

theorem numeric_number : (numeric d l).number = digitsVal d.1 := rfl

theorem numeric_digits : (numeric d l).digits.1 = d.1 := rfl

theorem numeric_hasLetter : (numeric d l).hasLetter = l.isSome := by
  cases l <;> rfl

theorem numeric_text_none : (numeric d none).text = d.1 := List.append_nil _

theorem numeric_text_some (c : Letter) : (numeric d (some c)).text = d.1 ++ [c.1] := rfl

theorem numeric_length_some (c : Letter) : (numeric d (some c)).text.length = d.1.length + 1 := by
  rw [numeric_text_some, List.length_append, List.length_singleton]

theorem numeric_padded_none (m : Nat) :
    (numeric d none).paddedNumber m = digitsVal d.1 * 10 ^ (m - d.1.length) := by
  rw [paddedNumber, numeric_hasLetter, numeric_text_none]
  rfl

theorem numeric_padded_some (c : Letter) (m : Nat) : (numeric d (some c)).paddedNumber m = digitsVal d.1 := by
  rw [paddedNumber, numeric_hasLetter]
  rfl

theorem numeric_letterVal (c : Letter) : (numeric d (some c)).letterVal = charVal c.1 := rfl

end Numeric

section Suffix

variable {s : SuffixWord × OptDigits} (h : s.2.1 ≠ [])
include h

theorem suffix_pre : (suffix s).pre = s.1.kind := by rw [suffix, dif_neg h]

theorem suffix_hasLetter : (suffix s).hasLetter = false := by
  rw [suffix, dif_neg h]
  rfl

theorem suffix_letters : (suffix s).letters.1 = [] := by rw [suffix, dif_neg h]

theorem suffix_text : (suffix s).text = s.2.1 := by
  rw [suffix, dif_neg h]
  exact List.append_nil _

theorem suffix_number : (suffix s).number = digitsVal s.2.1 := by
  rw [suffix, dif_neg h]
  rfl

end Suffix

end VersionPart

namespace VersionText

open VersionPart

variable {front xs ys : List VersionPart}

theorem loop_front (h : ∀ x ∈ front, x.Passable) (revs : Int) :
    loop revs (front ++ xs) (front ++ ys) = loop revs xs ys := by
  induction front with
  | nil => rfl
  | cons x front ih =>
    have hstep := step_passable (h x List.mem_cons_self) (!(front ++ xs).isEmpty) (!(front ++ ys).isEmpty)
    rw [List.cons_append, List.cons_append, loop_cons, hstep, Option.bind_some]
    exact ih fun y hy => h y (List.mem_cons_of_mem x hy)

/-- A leading zero in front of too many digits stops the walk. -/
theorem loop_stuck (hl : ∀ x ∈ front, x.hasLetter = false) (h : ¬ ∀ x ∈ front, x.Passable) (revs : Int) :
    loop revs (front ++ xs) (front ++ ys) = none := by
  induction front with
  | nil => exact absurd (List.forall_mem_nil _) h
  | cons x front ih =>
    rw [List.cons_append, List.cons_append, loop_cons]
    by_cases hx : x.Passable
    · rw [step_passable hx, Option.bind_some]
      apply ih (fun y hy => hl y (List.mem_cons_of_mem x hy))
      intro hall
      exact h (List.forall_mem_cons.mpr ⟨hx, hall⟩)
    · rw [step_stuck (hl x List.mem_cons_self) hx, Option.bind_none]

theorem numericParts_none (d : Digits) (more : List Digits) :
    numericParts d more none = (d :: more).map fun e => numeric e none := by
  induction more generalizing d with
  | nil => rfl
  | cons e more ih =>
    rw [numericParts, ih]
    rfl

/-- Only the last component has the letter. -/
theorem numericParts_last (d : Digits) (more : List Digits) (l : Option Letter) :
    numericParts d more l = (d :: more).dropLast.map (fun e => numeric e none) ++
      [numeric ((d :: more).getLast (List.cons_ne_nil d more)) l] := by
  induction more generalizing d with
  | nil => rfl
  | cons e more ih =>
    rw [numericParts, ih, List.dropLast_cons_cons, List.map_cons, List.getLast_cons (List.cons_ne_nil e more)]
    rfl

end VersionText

end AutoGentoo
