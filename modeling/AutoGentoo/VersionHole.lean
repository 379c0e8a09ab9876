import AutoGentoo.VersionLetter
import AutoGentoo.VersionReference

/-! Two versions that differ in one number of any length. `strtol` cuts the number at the
largest `long`, the conversion and the subtraction keep its last 32 bits, and so the order
of the two survives exactly for some distances. -/

namespace AutoGentoo

open CString VersionPart

/-- `[0-9]+` with no zero in front of other digits. -/
abbrev PlainDigits := { d : Digits // ¬ Reference.LeadingZero d }

/-- A version of the grammar with one of its numbers left open. -/
inductive VersionHole
  | component (front back : List Digits) (letter : Option Letter)
      (suffixes : List (SuffixWord × OptDigits)) (revision : Option Digits)
  | suffix (first : Digits) (more : List Digits) (letter : Option Letter)
      (front : List (SuffixWord × OptDigits)) (word : SuffixWord)
      (back : List (SuffixWord × OptDigits)) (revision : Option Digits)
  | revision (first : Digits) (more : List Digits) (letter : Option Letter)
      (suffixes : List (SuffixWord × OptDigits))

def VersionHole.fill : VersionHole → Digits → VersionText
  | component front back letter suffixes rev, d =>
    { first := front.headD d
      more := (front ++ d :: back).tail
      letter := letter
      suffixes := suffixes
      revision := rev }
  | suffix first more letter front word back rev, d =>
    { first := first
      more := more
      letter := letter
      suffixes := front ++ (word, d.optional) :: back
      revision := rev }
  | revision first more letter suffixes, d =>
    { first := first
      more := more
      letter := letter
      suffixes := suffixes
      revision := some d }

namespace VersionText

/-- A result below zero; a comparison that ends in the assertion has none. -/
def Negative (c : Option Int) : Prop := ∃ v, c = some v ∧ v < 0

/-- How far `a` lies before `b`, as far as the subtraction can tell. -/
def distance (a b : Digits) : Int := (clampLong (digitsVal b.1) - clampLong (digitsVal a.1)) % 2 ^ 32

/-- The difference of the two keeps its sign. -/
def SignKept (a b : Digits) : Prop := 0 < distance a b ∧ distance a b ≤ 2 ^ 31

/-- Along components that both versions share, one with a letter and another one behind it
is met before any that is too long for the buffer; `next` tells whether more follows. -/
def LetterMet (next : Bool) : List VersionPart → Prop
  | [] => False
  | x :: xs => (x.hasLetter = true ∧ (next || !xs.isEmpty) = true) ∨
      (x.Plain ∨ x.text.length < 128) ∧ LetterMet next xs

/-- The walk gets behind components that both versions share. -/
def Passed (next : Bool) : List VersionPart → Prop
  | [] => True
  | x :: xs => ¬ (x.hasLetter = true ∧ (next || !xs.isEmpty) = true) ∧
      (x.Plain ∨ x.text.length < 128) ∧ Passed next xs

/-- The buffer suffices for the two numbers: a 0 with a letter is padded to the length of
the other. -/
def Buffered (letter : Option Letter) (a b : Digits) : Prop :=
  letter.isSome = true → digitsVal a.1 = 0 → b.1.length + 1 < 128

/-- For a number with `letter` behind it that has the components `before` and `after` around
it: the letter rule answers first, or the sign is kept, or the two numbers look equal and
the letter rule answers behind them. -/
def OrderKept (before : List VersionPart) (letter : Option Letter) (after : List VersionPart)
    (a b : Digits) : Prop :=
  LetterMet true before ∨ Passed true before ∧
    (letter.isSome = true ∧ after ≠ [] ∨
      Buffered letter a b ∧ (SignKept a b ∨ distance a b = 0 ∧ LetterMet false after))

/-- The components behind one that `back` follows. -/
def numericBehind (l : Option Letter) : List Digits → List VersionPart
  | [] => []
  | d :: back => numericParts d back l

theorem numericParts_behind (d : Digits) (back : List Digits) (l : Option Letter) :
    numericParts d back l = numeric d (if back = [] then l else none) :: numericBehind l back := by
  cases back <;> rfl

theorem numericParts_front (front back : List Digits) (d : Digits) (l : Option Letter) :
    numericParts (front.headD d) (front ++ d :: back).tail l =
      front.map (fun e => numeric e none) ++ numericParts d back l := by
  induction front with
  | nil => rfl
  | cons e front ih =>
    rw [List.map_cons, List.cons_append, List.cons_append, ← ih]
    cases front <;> rfl

theorem sub_read (m n : Nat) : toI32 (read m - read n) = toI32 (clampLong m - clampLong n) := by
  simp only [VersionPart.read, toI32, Int.bmod_sub_bmod, Int.sub_bmod_bmod]

theorem toI32_sub_neg_iff (m n : Int) :
    toI32 (m - n) < 0 ↔ 0 < (n - m) % 2 ^ 32 ∧ (n - m) % 2 ^ 32 ≤ 2 ^ 31 := by
  rw [toI32, Int.bmod_def]
  omega

theorem toI32_sub_zero_iff (m n : Int) : toI32 (m - n) = 0 ↔ (n - m) % 2 ^ 32 = 0 := by
  rw [toI32, Int.bmod_def]
  omega

theorem sub_read_neg_iff (a b : Digits) :
    toI32 (VersionPart.read (digitsVal a.1) - VersionPart.read (digitsVal b.1)) < 0 ↔ SignKept a b := by
  rw [sub_read, toI32_sub_neg_iff]
  rfl

theorem sub_read_zero_iff (a b : Digits) :
    toI32 (VersionPart.read (digitsVal a.1) - VersionPart.read (digitsVal b.1)) = 0 ↔ distance a b = 0 := by
  rw [sub_read, toI32_sub_zero_iff]
  rfl

theorem negative_some {v : Int} : Negative (some v) ↔ v < 0 := by
  simp [Negative]

theorem not_negative_none : ¬ Negative none := by
  simp [Negative]

/-- The components two versions share, whatever follows in both. -/
theorem negative_shared (next : Bool) {ys zs : List VersionPart} (hy : (!ys.isEmpty) = next)
    (hz : (!zs.isEmpty) = next) (revs : Int) (xs : List VersionPart) :
    Negative (loop revs (xs ++ ys) (xs ++ zs)) ↔
      LetterMet next xs ∨ Passed next xs ∧ Negative (loop revs ys zs) := by
  induction xs with
  | nil => simp [LetterMet, Passed]
  | cons x xs ih =>
    have hys : (!(xs ++ ys).isEmpty) = (next || !xs.isEmpty) := by
      rw [← hy]
      cases xs <;> simp
    have hzs : (!(xs ++ zs).isEmpty) = (next || !xs.isEmpty) := by
      rw [← hz]
      cases xs <;> simp
    rw [List.cons_append, List.cons_append, loop_cons, hys, hzs, LetterMet, Passed]
    by_cases hover : x.hasLetter = true ∧ (next || !xs.isEmpty) = true
    · rw [step_overtaken rfl ⟨hover.2, hover.1⟩, Option.bind_some, resume, negative_some]
      exact iff_of_true (by decide) (.inl (.inl hover))
    · have hnot : ¬ Overtaken x (next || !xs.isEmpty) := fun h => hover ⟨h.2, h.1⟩
      rw [step_numbers rfl hnot hnot]
      by_cases hfits : x.Plain ∨ x.text.length < 128
      · obtain ⟨n, hn, he⟩ := (numbers_self x).mpr hfits
        rw [hn, Option.map_some, he, finish_equal, Option.bind_some, resume, ih, or_iff_right hover,
          and_iff_right hfits, and_iff_right hover, and_iff_right hfits]
      · rw [numbers_self_none hfits, Option.map_none, Option.bind_none]
        refine iff_of_false not_negative_none ?_
        rintro ((h | h) | h)
        · exact hover h
        · exact hfits h.1
        · exact hfits h.1.2.1

theorem negative_whole (revs : Int) (xs : List VersionPart) :
    Negative (loop revs xs xs) ↔ LetterMet false xs ∨ Passed false xs ∧ revs < 0 := by
  have hnext : (!([] : List VersionPart).isEmpty) = false := rfl
  have hshared := negative_shared false hnext hnext revs xs
  rwa [List.append_nil, loop_nil, negative_some] at hshared

section Number

variable {x y : VersionPart} {l : Option Letter} {a b : Digits} (hpre : x.pre = y.pre)
  (hx : x.hasLetter = l.isSome) (hletters : x.letters = y.letters)
  (hsome : Buffered l a b → numbers x y =
    some (VersionPart.read (digitsVal a.1), VersionPart.read (digitsVal b.1)))
  (hnone : ¬ Buffered l a b → numbers x y = none)
include hpre hx hletters hsome hnone

theorem negative_number (after : List VersionPart) :
    Negative (loop 0 (x :: after) (y :: after)) ↔ l.isSome = true ∧ after ≠ [] ∨
      Buffered l a b ∧ (SignKept a b ∨ distance a b = 0 ∧ LetterMet false after) := by
  have hy : y.hasLetter = l.isSome := by rw [← hx, hasLetter, hasLetter, hletters]
  have hval : x.letterVal = y.letterVal := by rw [letterVal, letterVal, hletters]
  have hnext : (!after.isEmpty) = true ↔ after ≠ [] := by simp
  rw [loop_cons]
  by_cases hover : l.isSome = true ∧ after ≠ []
  · have hmet : Overtaken x (!after.isEmpty) := ⟨hnext.mpr hover.2, hx.trans hover.1⟩
    rw [step_overtaken hpre hmet, Option.bind_some, resume, negative_some]
    exact iff_of_true (by decide) (.inl hover)
  · have hnot : ¬ Overtaken x (!after.isEmpty) := fun h => hover ⟨hx.symm.trans h.2, hnext.mp h.1⟩
    have hnot' : ¬ Overtaken y (!after.isEmpty) := fun h => hover ⟨hy.symm.trans h.2, hnext.mp h.1⟩
    rw [step_numbers hpre hnot hnot', or_iff_right hover]
    by_cases hbuffer : Buffered l a b
    · rw [hsome hbuffer, Option.map_some, Option.bind_some, hval, sub_self, and_iff_right hbuffer,
        ← sub_read_neg_iff, ← sub_read_zero_iff]
      by_cases hzero : toI32 (VersionPart.read (digitsVal a.1) - VersionPart.read (digitsVal b.1)) = 0
      · have hfinish : finishStep false 0 0 = .next := rfl
        rw [hzero, hfinish, resume, negative_whole]
        simp
      · rw [finish_ne hzero, resume, negative_some]
        exact (or_iff_left fun h => hzero h.1).symm
    · rw [hnone hbuffer, Option.map_none, Option.bind_none]
      exact iff_of_false not_negative_none fun h => hbuffer h.1

end Number

section Component

variable {a b : PlainDigits} {l : Option Letter}

theorem component_plain (h : l.isSome = true → digitsVal a.1.1 ≠ 0) : (numeric a.1 l).Plain := by
  cases l with
  | none => exact Reference.numeric_plain_iff.mpr a.2
  | some c => exact lettered_plain_iff.mpr fun h0 => h rfl ((Reference.head_zero_iff a.2).mp h0)

/-- Only a lettered 0 is not read as it stands. -/
theorem numbers_component (hb : digitsVal b.1.1 ≠ 0) (h : Buffered l a.1 b.1) :
    numbers (numeric a.1 l) (numeric b.1 l) =
      some (VersionPart.read (digitsVal a.1.1), VersionPart.read (digitsVal b.1.1)) := by
  have hplain : (numeric b.1 l).Plain := component_plain fun _ => hb
  by_cases hzero : l.isSome = true ∧ digitsVal a.1.1 = 0
  · obtain ⟨c, rfl⟩ := Option.isSome_iff_exists.mp hzero.1
    have h0 : a.1.1.head? = some '0' := (Reference.head_zero_iff a.2).mpr hzero.2
    have hlength : a.1.1.length = 1 := not_not.mp fun h => a.2 ⟨h0, h⟩
    have hb1 := List.length_pos_of_ne_nil b.1.2.1
    have hbound := h rfl hzero.2
    have hnot : ¬ (numeric a.1 (some c)).Plain := fun h => lettered_plain_iff.mp h h0
    have hmax : max (numeric a.1 (some c)).text.length (numeric b.1 (some c)).text.length = b.1.1.length + 1 := by
      rw [numeric_length_some, numeric_length_some]
      omega
    rw [numbers_padded (fun h => hnot h.1) hmax, if_pos hbound, numeric_padded_some, numeric_padded_some]
  · have hplain' : (numeric a.1 l).Plain := component_plain fun hl hval => hzero ⟨hl, hval⟩
    exact if_pos ⟨hplain', hplain⟩

theorem numbers_component_none (h : ¬ Buffered l a.1 b.1) : numbers (numeric a.1 l) (numeric b.1 l) = none := by
  rw [Buffered, Classical.not_imp, Classical.not_imp] at h
  obtain ⟨hl, hval, hlength⟩ := h
  obtain ⟨c, rfl⟩ := Option.isSome_iff_exists.mp hl
  have hnot : ¬ (numeric a.1 (some c)).Plain := fun h => lettered_plain_iff.mp h ((Reference.head_zero_iff a.2).mpr hval)
  have hmax : ¬ max (numeric a.1 (some c)).text.length (numeric b.1 (some c)).text.length < 128 := by
    rw [numeric_length_some, numeric_length_some]
    omega
  rw [numbers_padded (fun h => hnot h.1) rfl, if_neg hmax]

theorem negative_component (hb : digitsVal b.1.1 ≠ 0) (after : List VersionPart) :
    Negative (loop 0 (numeric a.1 l :: after) (numeric b.1 l :: after)) ↔
      l.isSome = true ∧ after ≠ [] ∨ Buffered l a.1 b.1 ∧
        (SignKept a.1 b.1 ∨ distance a.1 b.1 = 0 ∧ LetterMet false after) :=
  negative_number (x := numeric a.1 l) (y := numeric b.1 l) rfl (numeric_hasLetter _ _) rfl
    (numbers_component hb) numbers_component_none after

end Component

section Suffix

variable (w : SuffixWord) (a b : PlainDigits)

theorem suffix_plain : (suffix (w, a.1.optional)).Plain := by
  rw [Plain, suffix_text (s := (w, a.1.optional)) a.1.2.1, plainNumber]
  exact (not_and_or.mp a.2).imp_right not_not.mp

theorem numbers_suffix : numbers (suffix (w, a.1.optional)) (suffix (w, b.1.optional)) =
    some (VersionPart.read (digitsVal a.1.1), VersionPart.read (digitsVal b.1.1)) := by
  rw [numbers, if_pos ⟨suffix_plain w a, suffix_plain w b⟩, suffix_number (s := (w, a.1.optional)) a.1.2.1,
    suffix_number (s := (w, b.1.optional)) b.1.2.1]
  rfl

theorem negative_suffix (after : List VersionPart) :
    Negative (loop 0 (suffix (w, a.1.optional) :: after) (suffix (w, b.1.optional) :: after)) ↔
      Buffered none a.1 b.1 ∧ (SignKept a.1 b.1 ∨ distance a.1 b.1 = 0 ∧ LetterMet false after) := by
  have hpre : (suffix (w, a.1.optional)).pre = (suffix (w, b.1.optional)).pre := by
    rw [suffix_pre (s := (w, a.1.optional)) a.1.2.1, suffix_pre (s := (w, b.1.optional)) b.1.2.1]
  have hletters : (suffix (w, a.1.optional)).letters = (suffix (w, b.1.optional)).letters := by
    apply Subtype.ext
    rw [suffix_letters (s := (w, a.1.optional)) a.1.2.1, suffix_letters (s := (w, b.1.optional)) b.1.2.1]
  have hbuffer : Buffered none a.1 b.1 := fun hl => absurd hl (by decide)
  rw [negative_number (l := none) hpre (suffix_hasLetter (s := (w, a.1.optional)) a.1.2.1) hletters
    (fun _ => numbers_suffix w a b) (fun hnot => absurd hbuffer hnot)]
  exact or_iff_right fun h => absurd h.1 (by decide)

end Suffix

end VersionText

namespace VersionHole

open VersionText

/-- When the comparison puts the version with `a` before the one with `b`. -/
def KeepsOrder (a b : Digits) : VersionHole → Prop
  | component front back letter suffixes _ =>
    OrderKept (front.map fun d => numeric d none) (if back = [] then letter else none)
      (numericBehind letter back ++ suffixes.map VersionPart.suffix) a b
  | suffix first more letter front _ back _ =>
    OrderKept (numericParts first more letter ++ front.map VersionPart.suffix) none
      (back.map VersionPart.suffix) a b
  | revision first more letter suffixes =>
    LetterMet false (numericParts first more letter ++ suffixes.map VersionPart.suffix) ∨
      Passed false (numericParts first more letter ++ suffixes.map VersionPart.suffix) ∧ SignKept a b

section Parts

variable (letter : Option Letter) (rev : Option Digits) (d : Digits)

theorem component_parts (front back : List Digits) (suffixes : List (SuffixWord × OptDigits)) :
    ((component front back letter suffixes rev).fill d).parts =
      front.map (fun e => numeric e none) ++ numeric d (if back = [] then letter else none) ::
        (numericBehind letter back ++ suffixes.map VersionPart.suffix) := by
  rw [parts, fill, numericParts_front, numericParts_behind, List.append_assoc, List.cons_append]

theorem suffix_parts (first : Digits) (more : List Digits) (front back : List (SuffixWord × OptDigits))
    (word : SuffixWord) :
    ((suffix first more letter front word back rev).fill d).parts =
      (numericParts first more letter ++ front.map VersionPart.suffix) ++
        VersionPart.suffix (word, d.optional) :: back.map VersionPart.suffix := by
  rw [parts, fill, List.map_append, List.map_cons, List.append_assoc]

end Parts

/-- The order survives exactly for these distances. -/
theorem negative_iff (h : VersionHole) (a b : PlainDigits) (hab : digitsVal a.1.1 < digitsVal b.1.1) :
    Negative (VersionText.compare (h.fill a.1) (h.fill b.1)) ↔ h.KeepsOrder a.1 b.1 := by
  rw [compare_eq]
  cases h with
  | component front back letter suffixes rev =>
    have hb : digitsVal b.1.1 ≠ 0 := by omega
    have hsame : ((component front back letter suffixes rev).fill a.1).revisionVal =
      ((component front back letter suffixes rev).fill b.1).revisionVal := rfl
    have hzero : toI32 0 = 0 := rfl
    rw [component_parts, component_parts, hsame, sub_self, hzero, negative_shared true rfl rfl,
      negative_component hb]
    rfl
  | suffix first more letter front word back rev =>
    have hsame : ((suffix first more letter front word back rev).fill a.1).revisionVal =
      ((suffix first more letter front word back rev).fill b.1).revisionVal := rfl
    have hzero : toI32 0 = 0 := rfl
    have hletter : ¬ ((none : Option Letter).isSome = true ∧ back.map VersionPart.suffix ≠ []) :=
      fun h => absurd h.1 (by decide)
    rw [suffix_parts, suffix_parts, hsame, sub_self, hzero, negative_shared true rfl rfl,
      negative_suffix, KeepsOrder, OrderKept, or_iff_right hletter]
  | revision first more letter suffixes =>
    rw [KeepsOrder, ← sub_read_neg_iff]
    exact negative_whole _ _

/-- `1.9` and `1.10` -/
theorem negative_nine_ten :
    digitsVal (Digits.of "9").1 < digitsVal (Digits.of "10").1 ∧
      (Negative (VersionText.compare ((component [Digits.of "1"] [] none [] none).fill (Digits.of "9"))
        ((component [Digits.of "1"] [] none [] none).fill (Digits.of "10"))) ↔
        (component [Digits.of "1"] [] none [] none).KeepsOrder (Digits.of "9") (Digits.of "10")) :=
  ⟨by decide, negative_iff (component [Digits.of "1"] [] none [] none) ⟨Digits.of "9", by decide⟩
    ⟨Digits.of "10", by decide⟩ (by decide)⟩

/-- A stamp of January 2023 comes behind one of September 2024. -/
theorem stamp_behind_later :
    VersionText.compare ((component [] [] none [] none).fill (Digits.of "20230101000000"))
        ((component [] [] none [] none).fill (Digits.of "20240901000000")) = some 2084901888 ∧
      ¬ ∀ (h : VersionHole) (a b : PlainDigits), digitsVal a.1.1 < digitsVal b.1.1 →
        Negative (VersionText.compare (h.fill a.1) (h.fill b.1)) := by
  have hresult : VersionText.compare ((component [] [] none [] none).fill (Digits.of "20230101000000"))
      ((component [] [] none [] none).fill (Digits.of "20240901000000")) = some 2084901888 := by decide
  refine ⟨hresult, fun hall => ?_⟩
  have hnegative := hall (component [] [] none [] none) ⟨Digits.of "20230101000000", by decide⟩
    ⟨Digits.of "20240901000000", by decide⟩ (by decide)
  rw [hresult, negative_some] at hnegative
  exact absurd hnegative (by decide)

end VersionHole

end AutoGentoo
