import AutoGentoo.VersionWalk

/-! A letter behind the last component. It counts as one of the characters to which the
other component is padded, so that a leading zero sets both numbers apart. -/

namespace AutoGentoo

open CString VersionPart

namespace VersionText

/-- A dotted number with at most a letter behind it. -/
def dotted (first : Digits) (more : List Digits) (letter : Option Letter) : VersionText where
  first := first
  more := more
  letter := letter
  suffixes := []
  revision := none

/-- The comparison says so in both directions. -/
def Below (s t : VersionText) : Prop :=
  (∃ v, compare s t = some v ∧ v < 0) ∧ ∃ v, compare t s = some v ∧ 0 < v

def lastOf (first : Digits) (more : List Digits) : Digits :=
  (first :: more).getLast (List.cons_ne_nil first more)

def frontOf (first : Digits) (more : List Digits) : List VersionPart :=
  (first :: more).dropLast.map fun d => numeric d none

theorem dotted_parts (first : Digits) (more : List Digits) (l : Option Letter) :
    (dotted first more l).parts = frontOf first more ++ [numeric (lastOf first more) l] := by
  rw [parts, dotted, List.map_nil, List.append_nil, numericParts_last]
  rfl

theorem dotted_parts_concat (first : Digits) (more : List Digits) (n : Digits) :
    (dotted first (more ++ [n]) none).parts =
      frontOf first more ++ [numeric (lastOf first more) none, numeric n none] := by
  have hall : first :: (more ++ [n]) = (first :: more).dropLast ++ [lastOf first more, n] := by
    have hlast := List.dropLast_append_getLast (List.cons_ne_nil first more)
    rw [← List.cons_append, ← hlast, List.append_assoc, List.dropLast_concat]
    rfl
  rw [parts, dotted, List.map_nil, List.append_nil, numericParts_none, hall, List.map_append]
  rfl

theorem frontOf_passable {first : Digits} {more : List Digits}
    (h : ∀ d ∈ first :: more, d.1.length < 128) : ∀ x ∈ frontOf first more, x.Passable := by
  rw [frontOf, List.forall_mem_map]
  intro d hd
  have hlength := h d (List.mem_of_mem_dropLast hd)
  rw [← numeric_text_none d] at hlength
  exact ⟨rfl, .inr hlength⟩

theorem digitsVal_lt_of_length {d : Digits} {n : Nat} (hd : d.1.length ≤ n) : digitsVal d.1 < 10 ^ n :=
  (digitsVal_lt d.2.2).trans_le (Nat.pow_le_pow_right (by decide) hd)

theorem head?_append {s t : List Char} (hs : s ≠ []) : (s ++ t).head? = s.head? := by
  cases s with
  | nil => exact absurd rfl hs
  | cons c s => rfl

theorem lettered_plain_iff {d : Digits} {c : Letter} :
    (numeric d (some c)).Plain ↔ d.1.head? ≠ some '0' := by
  rw [Plain, plainNumber, numeric_text_some, head?_append d.2.1, List.length_append, List.length_singleton]
  have hpos := List.length_pos_of_ne_nil d.2.1
  exact or_iff_left (by omega)

theorem numbers_letter {d : Digits} (hd : d.1.length ≤ 8) (c : Letter) :
    numbers (numeric d none) (numeric d (some c)) =
      some (if d.1.head? = some '0' then (digitsVal d.1 : Int) * 10 else digitsVal d.1,
        (digitsVal d.1 : Int)) := by
  have hless := digitsVal_lt_of_length hd
  have hread : read (digitsVal d.1) = digitsVal d.1 := read_eq (by omega)
  by_cases h0 : d.1.head? = some '0'
  · have hnot : ¬ (numeric d (some c)).Plain := fun h => lettered_plain_iff.mp h h0
    have hmax : max (numeric d none).text.length (numeric d (some c)).text.length = d.1.length + 1 := by
      rw [numeric_text_none, numeric_length_some]
      omega
    have hshift : d.1.length + 1 - d.1.length = 1 := by omega
    rw [if_pos h0, numbers_padded (fun h => hnot h.2) hmax, if_pos (by omega), numeric_padded_none,
      numeric_padded_some, hshift, pow_one, hread, read_eq (by omega)]
    push_cast
    rfl
  · have hplain : (numeric d none).Plain := by
      rw [Plain, numeric_text_none]
      exact .inl h0
    rw [if_neg h0, numbers, if_pos ⟨hplain, lettered_plain_iff.mpr h0⟩, numeric_number, numeric_number, hread]

theorem lt_letterVal {a b : Letter} (h : a.1 < b.1) : charVal a.1 < charVal b.1 := by
  have ha := isAlpha_cases a.2
  have hb := isAlpha_cases b.2
  rw [charVal_ascii (by omega), charVal_ascii (by omega)]
  have hlt : a.1.toNat < b.1.toNat := h
  omega

/-- The letter counts where the numbers read are equal. -/
def LetterCounts (d : Digits) : Prop := plainNumber d.1 d.1.length ∨ digitsVal d.1 = 0

theorem letterCounts_iff {d : Digits} :
    LetterCounts d ↔ (d.1.head? = some '0' → digitsVal d.1 = 0) := by
  have hone : d.1.head? = some '0' → d.1.length = 1 → digitsVal d.1 = 0 := by
    intro h0 hlength
    obtain ⟨x, hx⟩ := List.length_eq_one_iff.mp hlength
    rw [hx, List.head?_cons, Option.some.injEq] at h0
    rw [hx, h0]
    rfl
  rw [LetterCounts, plainNumber]
  constructor
  · rintro ((hne | hlength) | hzero) h0
    · exact absurd h0 hne
    · exact hone h0 hlength
    · exact hzero
  · intro h
    by_cases h0 : d.1.head? = some '0'
    · exact .inr (h h0)
    · exact .inl (.inl h0)

theorem loop_letter {d : Digits} (hd : d.1.length ≤ 8) (c : Letter) :
    ((∃ v, loop 0 [numeric d none] [numeric d (some c)] = some v ∧ v < 0) ∧
      ∃ v, loop 0 [numeric d (some c)] [numeric d none] = some v ∧ 0 < v) ↔ LetterCounts d := by
  have hless := digitsVal_lt_of_length hd
  have hnumbers := numbers_letter hd c
  have hpos : 0 < (numeric d (some c)).letterVal := letterVal_pos rfl
  have hstep : step (numeric d none) (numeric d (some c)) false false =
      (numbers (numeric d none) (numeric d (some c))).map fun n =>
        finishStep false (toI32 (n.1 - n.2)) (0 - (numeric d (some c)).letterVal) :=
    step_numbers rfl (by simp [Overtaken]) (by simp [Overtaken])
  have hstep' : step (numeric d (some c)) (numeric d none) false false =
      (numbers (numeric d (some c)) (numeric d none)).map fun n =>
        finishStep false (toI32 (n.1 - n.2)) ((numeric d (some c)).letterVal - 0) :=
    step_numbers rfl (by simp [Overtaken]) (by simp [Overtaken])
  rw [numbers_swap (numeric d none)] at hstep'
  rw [loop_cons, loop_cons, List.isEmpty_nil, Bool.not_true, hstep, hstep', hnumbers, letterCounts_iff]
  simp only [Option.map_some, Option.bind_some, Prod.fst_swap, Prod.snd_swap]
  by_cases hcounts : d.1.head? = some '0' → digitsVal d.1 = 0
  · have hequal : (if d.1.head? = some '0' then (digitsVal d.1 : Int) * 10 else digitsVal d.1) = digitsVal d.1 := by
      split_ifs with h0
      · rw [hcounts h0]
        rfl
      · rfl
    have hzero : toI32 0 = 0 := rfl
    rw [hequal, sub_self, hzero, finish_suf (by omega), finish_suf (by omega)]
    exact iff_of_true ⟨⟨_, rfl, by omega⟩, ⟨_, rfl, by omega⟩⟩ hcounts
  · have hboth := hcounts
    rw [Classical.not_imp] at hboth
    obtain ⟨h0, hne⟩ := hboth
    have hsub : toI32 ((digitsVal d.1 : Int) * 10 - digitsVal d.1) = (digitsVal d.1 : Int) * 10 - digitsVal d.1 :=
      toI32_eq_self (by omega) (by omega)
    rw [if_pos h0, hsub, finish_ne (by omega)]
    refine iff_of_false ?_ hcounts
    rintro ⟨⟨v, hv, hneg⟩, -⟩
    have hv : (digitsVal d.1 : Int) * 10 - digitsVal d.1 = v := Option.some.inj hv
    omega

theorem loop_letters {d : Digits} (hd : d.1.length ≤ 8) {a b : Letter} (h : charVal a.1 ≠ charVal b.1) :
    loop 0 [numeric d (some a)] [numeric d (some b)] = some (charVal a.1 - charVal b.1) := by
  have hnumbers : ∃ v, numbers (numeric d (some a)) (numeric d (some b)) = some (v, v) := by
    by_cases h0 : d.1.head? = some '0'
    · have hnot : ¬ (numeric d (some a)).Plain := fun h => lettered_plain_iff.mp h h0
      have hmax : max (numeric d (some a)).text.length (numeric d (some b)).text.length = d.1.length + 1 := by
        rw [numeric_length_some, numeric_length_some, max_self]
      rw [numbers_padded (fun h => hnot h.1) hmax, if_pos (by omega), numeric_padded_some, numeric_padded_some]
      exact ⟨_, rfl⟩
    · rw [numbers, if_pos ⟨lettered_plain_iff.mpr h0, lettered_plain_iff.mpr h0⟩]
      exact ⟨_, rfl⟩
  obtain ⟨v, hv⟩ := hnumbers
  have hzero : toI32 0 = 0 := rfl
  have hpre : (numeric d (some a)).pre = (numeric d (some b)).pre := rfl
  rw [loop_cons, List.isEmpty_nil, Bool.not_true, step_numbers hpre (by simp [Overtaken]) (by simp [Overtaken]),
    hv, Option.map_some, sub_self, hzero, numeric_letterVal, numeric_letterVal,
    finish_suf (sub_ne_zero.mpr h)]
  rfl

/-- A lettered component that ends its version comes before one that goes on. -/
theorem loop_longer (d n : Digits) (c : Letter) :
    loop 0 [numeric d (some c)] [numeric d none, numeric n none] = some (-1) ∧
      loop 0 [numeric d none, numeric n none] [numeric d (some c)] = some 1 := by
  have hover : Overtaken (numeric d (some c)) true := ⟨rfl, rfl⟩
  have hnot : ¬ Overtaken (numeric d none) false := not_overtaken (x := numeric d none) rfl false
  have hfirst := step_overtaken (x := numeric d (some c)) (y := numeric d none) rfl hover false
  have hsecond := step_overtakes (x := numeric d none) (y := numeric d (some c)) rfl hnot hover
  rw [loop_cons, loop_cons, List.isEmpty_nil, List.isEmpty_cons, Bool.not_true, Bool.not_false, hfirst, hsecond]
  exact ⟨rfl, rfl⟩

section Compare

variable {first : Digits} {more : List Digits} (h : ∀ d ∈ first :: more, d.1.length < 128)
include h

theorem compare_dotted (l l' : Option Letter) :
    compare (dotted first more l) (dotted first more l') =
      loop 0 [numeric (lastOf first more) l] [numeric (lastOf first more) l'] := by
  rw [compare_eq, dotted_parts, dotted_parts, loop_front (frontOf_passable h)]
  rfl

theorem compare_dotted_concat (l : Option Letter) (n : Digits) :
    compare (dotted first more l) (dotted first (more ++ [n]) none) =
      loop 0 [numeric (lastOf first more) l] [numeric (lastOf first more) none, numeric n none] := by
  rw [compare_eq, dotted_parts, dotted_parts_concat, loop_front (frontOf_passable h)]
  rfl

theorem compare_concat_dotted (l : Option Letter) (n : Digits) :
    compare (dotted first (more ++ [n]) none) (dotted first more l) =
      loop 0 [numeric (lastOf first more) none, numeric n none] [numeric (lastOf first more) l] := by
  rw [compare_eq, dotted_parts_concat, dotted_parts, loop_front (frontOf_passable h)]
  rfl

theorem below_concat (c : Letter) (n : Digits) :
    Below (dotted first more (some c)) (dotted first (more ++ [n]) none) := by
  obtain ⟨hless, hgreater⟩ := loop_longer (lastOf first more) n c
  rw [Below, compare_dotted_concat h, compare_concat_dotted h, hless, hgreater]
  exact ⟨⟨-1, rfl, by decide⟩, ⟨1, rfl, by decide⟩⟩

end Compare

/-- Exactly the versions whose last component has a leading zero and is not zero are in the
wrong order with a letter behind it. -/
theorem letter_order_iff (first : DigitsUpTo 8) (more : List (DigitsUpTo 8)) (a b : Letter)
    (hab : a.1 < b.1) (n : Digits) :
    (Below (dotted first.1 (more.map Subtype.val) none) (dotted first.1 (more.map Subtype.val) (some a)) ∧
      Below (dotted first.1 (more.map Subtype.val) (some a)) (dotted first.1 (more.map Subtype.val) (some b)) ∧
      Below (dotted first.1 (more.map Subtype.val) (some a))
        (dotted first.1 (more.map Subtype.val ++ [n]) none) ∧
      Below (dotted first.1 (more.map Subtype.val) (some b))
        (dotted first.1 (more.map Subtype.val ++ [n]) none)) ↔
      LetterCounts (lastOf first.1 (more.map Subtype.val)) := by
  have hshort : ∀ d ∈ first.1 :: more.map Subtype.val, d.1.length ≤ 8 := by
    rw [← List.map_cons]
    intro d hd
    obtain ⟨e, -, rfl⟩ := List.mem_map.mp hd
    exact e.2
  have hlength : ∀ d ∈ first.1 :: more.map Subtype.val, d.1.length < 128 := by
    intro d hd
    have hle := hshort d hd
    omega
  have hlast : (lastOf first.1 (more.map Subtype.val)).1.length ≤ 8 := hshort _ (List.getLast_mem _)
  have hless := lt_letterVal hab
  have hletters : Below (dotted first.1 (more.map Subtype.val) (some a))
      (dotted first.1 (more.map Subtype.val) (some b)) := by
    rw [Below, compare_dotted hlength, compare_dotted hlength, loop_letters hlast hless.ne,
      loop_letters hlast hless.ne']
    exact ⟨⟨_, rfl, by omega⟩, ⟨_, rfl, by omega⟩⟩
  have hfirst : Below (dotted first.1 (more.map Subtype.val) none)
      (dotted first.1 (more.map Subtype.val) (some a)) ↔ LetterCounts (lastOf first.1 (more.map Subtype.val)) := by
    rw [Below, compare_dotted hlength, compare_dotted hlength, loop_letter hlast]
  rw [hfirst]
  exact and_iff_left ⟨hletters, below_concat hlength a n, below_concat hlength b n⟩

/-- `1.5`, `1.5a`, `1.5b` and `1.5.4` -/
theorem letter_order_one_five :
    Below (dotted (Digits.of "1") [Digits.of "5"] none) (dotted (Digits.of "1") [Digits.of "5"] (some ⟨'a', by decide⟩)) ∧
      Below (dotted (Digits.of "1") [Digits.of "5"] (some ⟨'a', by decide⟩))
        (dotted (Digits.of "1") [Digits.of "5"] (some ⟨'b', by decide⟩)) ∧
      Below (dotted (Digits.of "1") [Digits.of "5"] (some ⟨'a', by decide⟩))
        (dotted (Digits.of "1") [Digits.of "5", Digits.of "4"] none) ∧
      Below (dotted (Digits.of "1") [Digits.of "5"] (some ⟨'b', by decide⟩))
        (dotted (Digits.of "1") [Digits.of "5", Digits.of "4"] none) := by
  have hcounts : LetterCounts (lastOf (Digits.of "1") [Digits.of "5"]) := .inl (.inl (by decide))
  exact (letter_order_iff ⟨Digits.of "1", by decide⟩ [⟨Digits.of "5", by decide⟩] ⟨'a', by decide⟩
    ⟨'b', by decide⟩ (by decide) (Digits.of "4")).mpr hcounts

/-- `1.05` comes behind `1.05a`. -/
theorem letter_behind_leading_zero :
    compare (dotted (Digits.of "1") [Digits.of "05"] none)
        (dotted (Digits.of "1") [Digits.of "05"] (some ⟨'a', by decide⟩)) = some 45 ∧
      ¬ Below (dotted (Digits.of "1") [Digits.of "05"] none)
        (dotted (Digits.of "1") [Digits.of "05"] (some ⟨'a', by decide⟩)) := by
  have h : compare (dotted (Digits.of "1") [Digits.of "05"] none)
      (dotted (Digits.of "1") [Digits.of "05"] (some ⟨'a', by decide⟩)) = some 45 := by decide
  refine ⟨h, ?_⟩
  rintro ⟨⟨v, hv, hneg⟩, -⟩
  rw [h, Option.some.injEq] at hv
  omega

end VersionText

end AutoGentoo
