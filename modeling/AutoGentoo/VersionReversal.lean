import AutoGentoo.VersionCompare
import AutoGentoo.ThreeWay

/-! When a version compares equal to itself and when swapping the arguments of
the comparison reverses its sign. -/

namespace AutoGentoo

open CString ThreeWay

theorem AtomPrefix.val_injective {a b : AtomPrefix} (h : a.val = b.val) : a = b := by
  cases a <;> cases b <;> first | rfl | exact absurd h (by decide)

namespace VersionPart

theorem read_bounds (n : Nat) : -2 ^ 31 ≤ read n ∧ read n < 2 ^ 31 := toI32_bounds _

theorem numbers_bounds {x y : VersionPart} {n : Int × Int} (h : numbers x y = some n) :
    ∃ a b : Nat, n = (read a, read b) := by
  simp only [numbers] at h
  split_ifs at h
  · exact ⟨_, _, (Option.some.inj h).symm⟩
  · exact ⟨_, _, (Option.some.inj h).symm⟩

theorem numbers_swap (x y : VersionPart) : numbers y x = (numbers x y).map Prod.swap := by
  have hm : max y.text.length x.text.length = max x.text.length y.text.length := max_comm _ _
  simp only [numbers, and_comm (a := y.Plain), hm]
  split_ifs <;> rfl

theorem numbers_sub_eq_zero {x y : VersionPart} {n : Int × Int} (h : numbers x y = some n) :
    toI32 (n.1 - n.2) = 0 ↔ n.1 = n.2 := by
  obtain ⟨a, b, rfl⟩ := numbers_bounds h
  exact toI32_sub_eq_zero (read_bounds a).1 (read_bounds a).2 (read_bounds b).1 (read_bounds b).2

/-- No number is read because one of the two carries a letter and the other
one goes on. -/
def Overtaken (x : VersionPart) (yNext : Bool) : Prop := yNext = true ∧ x.hasLetter = true

instance (x : VersionPart) (n : Bool) : Decidable (Overtaken x n) :=
  inferInstanceAs (Decidable (_ ∧ _))

theorem step_pre {x y : VersionPart} (h : x.pre ≠ y.pre) (xNext yNext : Bool) :
    step x y xNext yNext = some (.ret (x.pre.val - y.pre.val)) := by
  simp [step, h]

theorem step_overtaken {x y : VersionPart} {yNext : Bool} (hp : x.pre = y.pre)
    (h : Overtaken x yNext) (xNext : Bool) : step x y xNext yNext = some (.ret (-1)) := by
  simp [step, hp, h.1, h.2]

theorem step_overtakes {x y : VersionPart} {xNext yNext : Bool} (hp : x.pre = y.pre)
    (hx : ¬ Overtaken x yNext) (hy : Overtaken y xNext) :
    step x y xNext yNext = some (.ret 1) := by
  simp only [Overtaken, not_and, Bool.not_eq_true] at hx
  cases yNext <;> simp_all [step, Overtaken]

theorem step_numbers {x y : VersionPart} {xNext yNext : Bool} (hp : x.pre = y.pre)
    (hx : ¬ Overtaken x yNext) (hy : ¬ Overtaken y xNext) :
    step x y xNext yNext = (numbers x y).map fun n =>
      finishStep false (toI32 (n.1 - n.2)) (x.letterVal - y.letterVal) := by
  have hx' : (yNext && x.hasLetter) = false :=
    Bool.eq_false_iff.mpr (fun he => hx (Bool.and_eq_true_iff.mp he))
  have hy' : (xNext && y.hasLetter) = false :=
    Bool.eq_false_iff.mpr (fun he => hy (Bool.and_eq_true_iff.mp he))
  simp [step, hp, hx', hy']

end VersionPart

namespace VersionText

open VersionPart

/-- Only the last component carries a letter, and none with a leading zero
fills the buffer. -/
def SelfComparable (xs : List VersionPart) : Prop :=
  (∀ x ∈ xs.dropLast, x.hasLetter = false) ∧ ∀ x ∈ xs, x.Plain ∨ x.text.length < 128

/-- Walking both lists as the comparison does: the components it reaches are
not both lettered and followed by another one, the buffers suffice, and no
difference that decides is the number without opposite. -/
def Reversible (r s : Int) : List VersionPart → List VersionPart → Prop
  | [], [] => toI32 (r - s) ≠ intMin
  | [], _ :: _ => True
  | _ :: _, [] => True
  | x :: xs, y :: ys => x.pre = y.pre →
    ¬ (Overtaken x (!ys.isEmpty) ∧ Overtaken y (!xs.isEmpty)) ∧
      (¬ Overtaken x (!ys.isEmpty) → ¬ Overtaken y (!xs.isEmpty) →
        ∃ n, numbers x y = some n ∧ toI32 (n.1 - n.2) ≠ intMin ∧
          (n.1 = n.2 → x.letterVal = y.letterVal → Reversible r s xs ys))

theorem numbers_self (x : VersionPart) :
    (∃ n, numbers x x = some n ∧ n.1 = n.2) ↔ x.Plain ∨ x.text.length < 128 := by
  by_cases hp : x.Plain
  · simp [numbers, hp]
  · by_cases hl : x.text.length < 128 <;> simp [numbers, hp, hl]

theorem loop_self_iff (xs : List VersionPart) : loop 0 xs xs = some 0 ↔ SelfComparable xs := by
  induction xs with
  | nil => simp [SelfComparable]
  | cons x xs ih =>
    have hsplit : SelfComparable (x :: xs) ↔
        ¬ Overtaken x (!xs.isEmpty) ∧ (x.Plain ∨ x.text.length < 128) ∧ SelfComparable xs := by
      cases xs with
      | nil => simp [SelfComparable, Overtaken]
      | cons y ys =>
        simp only [SelfComparable, Overtaken, List.dropLast_cons_cons, List.forall_mem_cons,
          List.isEmpty_cons, Bool.not_false, true_and, Bool.not_eq_true]
        tauto
    rw [hsplit, loop_cons]
    by_cases ho : Overtaken x (!xs.isEmpty)
    · simp [step_overtaken rfl ho, ho, resume]
    · rw [step_numbers rfl ho ho]
      simp only [ho, not_false_eq_true, true_and, ← ih, ← numbers_self]
      cases hn : numbers x x with
      | none => simp
      | some n =>
        have he : n.1 = n.2 := by
          have hs := numbers_swap x x
          rw [hn] at hs
          exact congrArg Prod.fst (Option.some.inj hs)
        have hz : toI32 (n.1 - n.2) = 0 := (numbers_sub_eq_zero hn).mpr he
        have hf : finishStep false (toI32 (n.1 - n.2)) (x.letterVal - x.letterVal) = .next := by
          rw [hz, sub_self]
          rfl
        simp only [Option.map_some, Option.bind_some, hf, resume]
        simp [he]

theorem intMin_neg : intMin < 0 := by decide

theorem finish_ne {star : Bool} {cmp cmpSuf : Int} (h : cmp ≠ 0) :
    finishStep star cmp cmpSuf = .ret cmp := by
  simp [finishStep, h]

theorem finish_suf {cmpSuf : Int} (h : cmpSuf ≠ 0) : finishStep false 0 cmpSuf = .ret cmpSuf := by
  simp [finishStep, h]

theorem opposite_finish {x y : VersionPart} {n : Int × Int} (hn : numbers x y = some n)
    {a b : Option Int} {p : Prop} (hrec : Opposite a b ↔ p) :
    Opposite (resume a (finishStep false (toI32 (n.1 - n.2)) (x.letterVal - y.letterVal)))
        (resume b (finishStep false (toI32 (n.2 - n.1)) (y.letterVal - x.letterVal))) ↔
      toI32 (n.1 - n.2) ≠ intMin ∧ (n.1 = n.2 → x.letterVal = y.letterVal → p) := by
  by_cases hmin : toI32 (n.1 - n.2) = intMin
  · have hneg := not_opposite_of_neg intMin_neg intMin_neg
    rw [toI32_sub_swap_min hmin, hmin, finish_ne intMin_neg.ne, finish_ne intMin_neg.ne]
    exact iff_of_false hneg (fun h => h.1 rfl)
  · rw [toI32_sub_swap hmin]
    by_cases hz : toI32 (n.1 - n.2) = 0
    · have he := (numbers_sub_eq_zero hn).mp hz
      rw [hz, neg_zero]
      by_cases hl : x.letterVal = y.letterVal
      · rw [hl, sub_self]
        simpa [finishStep, resume, he, intMin] using hrec
      · have hd : x.letterVal - y.letterVal ≠ 0 := sub_ne_zero.mpr hl
        have hop := opposite_neg (x.letterVal - y.letterVal)
        rw [neg_sub] at hop
        rw [finish_suf hd, finish_suf (sub_ne_zero.mpr (Ne.symm hl))]
        exact iff_of_true hop ⟨intMin_neg.ne', fun _ h => absurd h hl⟩
    · have he : n.1 ≠ n.2 := fun he => hz ((numbers_sub_eq_zero hn).mpr he)
      rw [finish_ne hz, finish_ne (neg_ne_zero.mpr hz)]
      exact iff_of_true (opposite_neg _) ⟨hmin, fun h => absurd h he⟩

theorem opposite_loop_iff (r s : Int) (xs ys : List VersionPart) :
    Opposite (loop (toI32 (r - s)) xs ys) (loop (toI32 (s - r)) ys xs) ↔
      Reversible r s xs ys := by
  induction xs generalizing ys with
  | nil =>
    cases ys with
    | nil =>
      simp only [loop_nil, Reversible]
      by_cases hmin : toI32 (r - s) = intMin
      · rw [toI32_sub_swap_min hmin, hmin]
        exact iff_of_false (not_opposite_of_neg intMin_neg intMin_neg) (fun h => h rfl)
      · rw [toI32_sub_swap hmin]
        exact iff_of_true (opposite_neg _) hmin
    | cons y ys => simp [Reversible, opposite_some]
  | cons x xs ih =>
    cases ys with
    | nil => simp [Reversible, opposite_some]
    | cons y ys =>
      rw [loop_cons, loop_cons, Reversible]
      by_cases hp : x.pre = y.pre
      · simp only [hp, true_implies]
        by_cases hx : Overtaken x (!ys.isEmpty)
        · by_cases hy : Overtaken y (!xs.isEmpty)
          · simp [step_overtaken hp hx, step_overtaken hp.symm hy, hx, hy, opposite_some, resume]
          · simp [step_overtaken hp hx, step_overtakes hp.symm hy hx, hx, hy, opposite_some, resume]
        · by_cases hy : Overtaken y (!xs.isEmpty)
          · simp [step_overtakes hp hx hy, step_overtaken hp.symm hy, hx, hy, opposite_some, resume]
          · rw [step_numbers hp hx hy, step_numbers hp.symm hy hx, numbers_swap x y]
            simp only [hx, hy, and_false, not_false_eq_true, true_implies, true_and]
            cases hn : numbers x y with
            | none => simp [not_opposite_none]
            | some n =>
              simp only [Option.map_some, Option.bind_some, Prod.fst_swap, Prod.snd_swap,
                Option.some.injEq, exists_eq_left']
              exact opposite_finish hn (ih ys)
      · have hd : x.pre.val - y.pre.val ≠ 0 :=
          sub_ne_zero.mpr (fun he => hp (AtomPrefix.val_injective he))
        have hop := opposite_neg (x.pre.val - y.pre.val)
        rw [neg_sub] at hop
        simp [step_pre hp, step_pre (Ne.symm hp), hp, hop, resume]

/-- Every pair of numbers the walk reaches fits the buffers. -/
def Fits : List VersionPart → List VersionPart → Prop
  | [], _ => True
  | _ :: _, [] => True
  | x :: xs, y :: ys => x.pre = y.pre → ¬ Overtaken x (!ys.isEmpty) →
    ¬ Overtaken y (!xs.isEmpty) →
      ∃ n, numbers x y = some n ∧ (n.1 = n.2 → x.letterVal = y.letterVal → Fits xs ys)

theorem loop_isSome_iff (revs : Int) (xs ys : List VersionPart) :
    (∃ d, loop revs xs ys = some d) ↔ Fits xs ys := by
  induction xs generalizing ys with
  | nil => cases ys <;> simp [Fits]
  | cons x xs ih =>
    cases ys with
    | nil => simp [Fits]
    | cons y ys =>
      rw [loop_cons, Fits]
      by_cases hp : x.pre = y.pre
      · by_cases hx : Overtaken x (!ys.isEmpty)
        · simp [step_overtaken hp hx, hx, resume]
        by_cases hy : Overtaken y (!xs.isEmpty)
        · simp [step_overtakes hp hx hy, hy, resume]
        rw [step_numbers hp hx hy]
        cases hn : numbers x y with
        | none => simp [hp, hx, hy]
        | some n =>
          simp only [Option.map_some, Option.bind_some, hp, hx, hy, not_false_eq_true,
            true_implies, Option.some.injEq, exists_eq_left']
          by_cases he : n.1 = n.2
          · rw [(numbers_sub_eq_zero hn).mpr he]
            by_cases hl : x.letterVal = y.letterVal
            · have hf : finishStep false 0 0 = .next := by decide
              simp only [hl, sub_self, hf, resume, ih, he, true_implies]
            · simp [finish_suf (sub_ne_zero.mpr hl), resume, hl]
          · have hz : toI32 (n.1 - n.2) ≠ 0 := fun hz => he ((numbers_sub_eq_zero hn).mp hz)
            simp [finish_ne hz, resume, he]
      · simp [step_pre hp, hp, resume]

/-- Without a star no turn ends the loop with zero. -/
theorem step_ret_ne_zero {x y : VersionPart} {xNext yNext : Bool} {cmp : Int}
    (h : step x y xNext yNext = some (.ret cmp)) : cmp ≠ 0 := by
  by_cases hp : x.pre = y.pre
  · by_cases hx : Overtaken x yNext
    · rw [step_overtaken hp hx] at h
      simp only [Option.some.injEq, CompareStep.ret.injEq] at h
      omega
    by_cases hy : Overtaken y xNext
    · rw [step_overtakes hp hx hy] at h
      simp only [Option.some.injEq, CompareStep.ret.injEq] at h
      omega
    rw [step_numbers hp hx hy, Option.map_eq_some_iff] at h
    obtain ⟨n, -, hf⟩ := h
    simp only [finishStep, Bool.false_eq_true, if_false] at hf
    split_ifs at hf with h1 h2
    · exact (CompareStep.ret.inj hf) ▸ h1
    · exact (CompareStep.ret.inj hf) ▸ h2
  · rw [step_pre hp, Option.some.injEq, CompareStep.ret.injEq] at h
    rw [← h]
    exact sub_ne_zero.mpr (fun he => hp (AtomPrefix.val_injective he))

theorem step_next_swap {x y : VersionPart} {xNext yNext : Bool}
    (h : step x y xNext yNext = some .next) : step y x yNext xNext = some .next := by
  by_cases hp : x.pre = y.pre
  · by_cases hx : Overtaken x yNext
    · simp [step_overtaken hp hx] at h
    by_cases hy : Overtaken y xNext
    · simp [step_overtakes hp hx hy] at h
    rw [step_numbers hp hx hy, Option.map_eq_some_iff] at h
    obtain ⟨n, hn, hf⟩ := h
    simp only [finishStep, Bool.false_eq_true, if_false] at hf
    split_ifs at hf with h1 h2
    have he := (numbers_sub_eq_zero hn).mp (not_not.mp h1)
    have hl := sub_eq_zero.mp (not_not.mp h2)
    rw [step_numbers hp.symm hy hx, numbers_swap x y, hn, hl]
    simp [finishStep, he, toI32]
  · simp [step_pre hp] at h

theorem loop_eq_zero_iff (revs : Int) (xs ys : List VersionPart) :
    loop revs xs ys = some 0 ↔ loop 0 xs ys = some 0 ∧ revs = 0 := by
  induction xs generalizing ys with
  | nil => cases ys <;> simp
  | cons x xs ih =>
    cases ys with
    | nil => simp
    | cons y ys =>
      rw [loop_cons, loop_cons]
      cases hs : step x y (!xs.isEmpty) (!ys.isEmpty) with
      | none => simp
      | some s =>
        cases s with
        | ret cmp => simp [resume, step_ret_ne_zero hs]
        | next => simpa [resume] using ih ys

theorem loop_zero_cons {x y : VersionPart} {xs ys : List VersionPart} (h : loop 0 (x :: xs) (y :: ys) = some 0) :
    step x y (!xs.isEmpty) (!ys.isEmpty) = some .next ∧ loop 0 xs ys = some 0 := by
  rw [loop_cons] at h
  cases hs : step x y (!xs.isEmpty) (!ys.isEmpty) with
  | none => simp [hs] at h
  | some s =>
    cases s with
    | ret cmp => simp [hs, resume, step_ret_ne_zero hs] at h
    | next =>
      simp only [hs, Option.bind_some, resume] at h
      exact ⟨rfl, h⟩

/-- Where the components are equal the revisions decide. -/
theorem loop_revs {xs ys : List VersionPart} (h : loop 0 xs ys = some 0) (revs : Int) :
    loop revs xs ys = some revs := by
  induction xs generalizing ys with
  | nil =>
    cases ys with
    | nil => rfl
    | cons y ys => exact absurd h (by simp)
  | cons x xs ih =>
    cases ys with
    | nil => exact absurd h (by simp)
    | cons y ys =>
      obtain ⟨hs, hrest⟩ := loop_zero_cons h
      rw [loop_cons, hs]
      exact ih hrest

theorem fits_swap {xs ys : List VersionPart} (h : Fits xs ys) : Fits ys xs := by
  induction xs generalizing ys with
  | nil => cases ys <;> trivial
  | cons x xs ih =>
    cases ys with
    | nil => trivial
    | cons y ys =>
      intro hp hy hx
      obtain ⟨n, hn, hrec⟩ := h hp.symm hx hy
      exact ⟨n.swap, by rw [numbers_swap x y, hn]; rfl,
        fun he hl => ih (hrec he.symm hl.symm)⟩

theorem loop_zero_swap {xs ys : List VersionPart} (h : loop 0 xs ys = some 0) :
    loop 0 ys xs = some 0 := by
  induction xs generalizing ys with
  | nil => cases ys <;> simp_all
  | cons x xs ih =>
    cases ys with
    | nil => simp at h
    | cons y ys =>
      obtain ⟨hs, hrest⟩ := loop_zero_cons h
      rw [loop_cons, step_next_swap hs]
      exact ih hrest

end VersionText

end AutoGentoo
