import AutoGentoo.AtomPattern
import AutoGentoo.VersionStar

/-! Which comparisons of two arbitrary strings stay inside the components and the
buffers, and pass the assertion. -/

namespace AutoGentoo

open CString

namespace VersionSafety

/-- The text of a node that has one. -/
def chars (node : VersionNode) : List Char := node.v.getD []

def endsStar (s : List Char) : Bool := s.getLast? = some '*'

/-- Two components without the star that is skipped: that of the first, or else that of the
second. -/
def unstarred (x y : List Char) : List Char × List Char :=
  if endsStar x then (x.dropLast, y) else if endsStar y then (x, y.dropLast) else (x, y)

/-- The last character is above `9`, as every letter is. -/
def endsLetter (s : List Char) : Bool := s.getLast?.any aboveNine

def lastLetter (s : List Char) : Int := (s.getLast?.map suffixVal).getD 0

/-- Neither is empty, and both are without a leading zero or shorter than the buffers. -/
def NumbersSafe (x y a b : List Char) : Prop :=
  a ≠ [] ∧ b ≠ [] ∧
    (plainNumber x a.length ∧ plainNumber y b.length ∨ max a.length b.length < 128)

/-- A turn over two components of one kind, `xNext` and `yNext` being whether others follow.
The letter of a component with nothing but a star is not there to be read. -/
def TurnSafe (x y : List Char) (xNext yNext : Bool) : Prop :=
  x ≠ [] ∧ (endsStar x = true ∨ y ≠ []) ∧
    ((yNext && endsLetter (unstarred x y).1) = true ∨
      (yNext = true → (unstarred x y).1 ≠ []) ∧ (xNext && endsLetter (unstarred x y).2) = true ∨
      NumbersSafe x y (unstarred x y).1 (unstarred x y).2)

/-- Nothing in the two components decides the comparison. -/
def GoesOn (x y : List Char) (xNext yNext : Bool) : Prop :=
  endsStar x = false ∧ endsStar y = false ∧
    (yNext && endsLetter x) = false ∧ (xNext && endsLetter y) = false ∧
    (∃ n, componentNumbers x y x.length y.length = some (n, n)) ∧ lastLetter x = lastLetter y

/-- Every turn that is made is safe. -/
def Safe : List VersionNode → List VersionNode → Prop
  | f :: fs, s :: ss => f.pre = s.pre →
      TurnSafe (chars f) (chars s) (!fs.isEmpty) (!ss.isEmpty) ∧
        (GoesOn (chars f) (chars s) (!fs.isEmpty) (!ss.isEmpty) → Safe fs ss)
  | _, _ => True

theorem endChar_take {s : List Char} {l : Nat} (h : l ≤ s.length) : endChar s l = (s.take l).getLast? := by
  cases l with
  | zero => rfl
  | succ l => rw [endChar, List.getLast?_take, if_neg (by omega), Nat.add_sub_cancel,
      List.getElem?_eq_getElem h, Option.some_or]

theorem endChar_length (s : List Char) : endChar s s.length = s.getLast? := by
  rw [endChar_take le_rfl, List.take_length]

theorem endChar_dropLast (s : List Char) : endChar s s.dropLast.length = s.dropLast.getLast? := by
  rw [endChar_take (List.dropLast_sublist s).length_le, List.length_dropLast, ← List.dropLast_eq_take]

theorem endChar_unstarred (x y : List Char) :
    endChar x (unstarred x y).1.length = (unstarred x y).1.getLast? ∧
      endChar y (unstarred x y).2.length = (unstarred x y).2.getLast? := by
  rw [unstarred]
  split
  · exact ⟨endChar_dropLast x, endChar_length y⟩
  · split
    · exact ⟨endChar_length x, endChar_dropLast y⟩
    · exact ⟨endChar_length x, endChar_length y⟩

theorem starSkip_eq (x y : List Char) : starSkip x y =
    if x ≠ [] ∧ (endsStar x = true ∨ y ≠ []) then
      some (endsStar x || endsStar y, (unstarred x y).1.length, (unstarred x y).2.length)
    else none := by
  simp only [starSkip, endChar_length]
  cases hx : x.getLast? with
  | none =>
    obtain rfl := List.getLast?_eq_none_iff.mp hx
    simp
  | some c =>
    have hne : x ≠ [] := fun h => by simp [h] at hx
    by_cases hc : c = '*'
    · have hstar : endsStar x = true := by simp [endsStar, hx, hc]
      simp [hne, hc, hstar, unstarred]
    · have hstar : endsStar x = false := by simp [endsStar, hx, hc]
      cases hy : y.getLast? with
      | none =>
        obtain rfl := List.getLast?_eq_none_iff.mp hy
        simp [hne, hc, hstar]
      | some d =>
        have hne' : y ≠ [] := fun h => by simp [h] at hy
        by_cases hd : d = '*'
        · have hstar' : endsStar y = true := by simp [endsStar, hy, hd]
          simp [hne, hne', hc, hd, hstar, hstar', unstarred]
        · have hstar' : endsStar y = false := by simp [endsStar, hy, hd]
          simp [hne, hne', hc, hd, hstar, hstar', unstarred]

/-- What is read behind the test for a star, with `a` and `b` for the two components
without it. -/
def turn (x y a b : List Char) (star xNext yNext : Bool) : Option CompareStep :=
  if (yNext && endsLetter a) = true then some (.ret (-1))
  else if (yNext = true → a ≠ []) ∧ (xNext && endsLetter b) = true then some (.ret 1)
  else if a ≠ [] ∧ b ≠ [] then
    (componentNumbers x y a.length b.length).map fun n =>
      finishStep star (toI32 (n.1 - n.2)) (lastLetter a - lastLetter b)
  else none

theorem compareStep_eq {f s : VersionNode} {x y : List Char} (hf : f.v = some x) (hs : s.v = some y)
    (hpre : f.pre = s.pre) (xNext yNext : Bool) : compareStep f s xNext yNext =
      if x ≠ [] ∧ (endsStar x = true ∨ y ≠ []) then
        turn x y (unstarred x y).1 (unstarred x y).2 (endsStar x || endsStar y) xNext yNext
      else none := by
  obtain ⟨hea, heb⟩ := endChar_unstarred x y
  rw [compareStep, if_neg (not_not.mpr hpre), hf, hs]
  simp only [Option.bind_eq_bind, Option.bind_some, starSkip_eq]
  by_cases hread : x ≠ [] ∧ (endsStar x = true ∨ y ≠ [])
  · rw [if_pos hread, if_pos hread, Option.bind_some, turn]
    simp only [letterRule, hea, heb, endsLetter, lastLetter]
    generalize (unstarred x y).1 = a
    generalize (unstarred x y).2 = b
    rcases List.eq_nil_or_concat' a with rfl | ⟨a, c, rfl⟩ <;>
      rcases List.eq_nil_or_concat' b with rfl | ⟨b, d, rfl⟩
    · cases xNext <;> cases yNext <;> simp
    · cases xNext <;> cases yNext <;> cases hd : aboveNine d <;> simp [hd]
    · cases xNext <;> cases yNext <;> cases hc : aboveNine c <;> simp [hc]
    · cases xNext <;> cases yNext <;> cases hc : aboveNine c <;> cases hd : aboveNine d <;>
        simp [hc, hd, Option.map_eq_bind]
  · rw [if_neg hread, if_neg hread]
    rfl

theorem componentNumbers_ne_none (x y : List Char) (lf ls : Nat) : componentNumbers x y lf ls ≠ none ↔
    plainNumber x lf ∧ plainNumber y ls ∨ max lf ls < 128 := by
  rw [componentNumbers]
  by_cases hplain : plainNumber x lf ∧ plainNumber y ls
  · simp [hplain]
  · by_cases hlong : max lf ls < 128
    · simp [hplain, hlong]
    · simp [hplain, hlong]

theorem turn_ne_none (x y a b : List Char) (star xNext yNext : Bool) :
    turn x y a b star xNext yNext ≠ none ↔ (yNext && endsLetter a) = true ∨
      (yNext = true → a ≠ []) ∧ (xNext && endsLetter b) = true ∨ NumbersSafe x y a b := by
  rw [turn, NumbersSafe, ← componentNumbers_ne_none]
  by_cases h1 : (yNext && endsLetter a) = true
  · rw [if_pos h1]
    exact iff_of_true (by simp) (.inl h1)
  · by_cases h2 : (yNext = true → a ≠ []) ∧ (xNext && endsLetter b) = true
    · rw [if_neg h1, if_pos h2]
      exact iff_of_true (by simp) (.inr (.inl h2))
    · rw [if_neg h1, if_neg h2]
      rw [or_iff_right h1, or_iff_right h2]
      by_cases h3 : a ≠ [] ∧ b ≠ []
      · rw [if_pos h3, ne_eq, Option.map_eq_none_iff]
        exact ⟨fun h => ⟨h3.1, h3.2, h⟩, fun h => h.2.2⟩
      · rw [if_neg h3]
        exact iff_of_false (by simp) fun h => h3 ⟨h.1, h.2.1⟩

theorem compareStep_ne_none {f s : VersionNode} {x y : List Char} (hf : f.v = some x) (hs : s.v = some y)
    (hpre : f.pre = s.pre) (xNext yNext : Bool) :
    compareStep f s xNext yNext ≠ none ↔ TurnSafe x y xNext yNext := by
  rw [compareStep_eq hf hs hpre, TurnSafe]
  by_cases hread : x ≠ [] ∧ (endsStar x = true ∨ y ≠ [])
  · rw [if_pos hread, turn_ne_none]
    simp [hread.1, hread.2]
  · rw [if_neg hread]
    simp only [ne_eq, not_true_eq_false, false_iff]
    exact fun h => hread ⟨h.1, h.2.1⟩

theorem finishStep_next (star : Bool) (cmp cmpSuf : Int) :
    finishStep star cmp cmpSuf = .next ↔ star = false ∧ cmp = 0 ∧ cmpSuf = 0 := by
  rw [finishStep]
  cases star <;> by_cases h : cmp = 0 <;> by_cases h' : cmpSuf = 0 <;> simp [h, h']

theorem componentNumbers_bounds {x y : List Char} {lf ls : Nat} {n : Int × Int}
    (h : componentNumbers x y lf ls = some n) : toI32 (n.1 - n.2) = 0 ↔ n.1 = n.2 := by
  have hread : ∀ s t, toI32 (toI32 s - toI32 t) = 0 ↔ toI32 s = toI32 t := fun s t =>
    toI32_sub_eq_zero (toI32_bounds s).1 (toI32_bounds s).2 (toI32_bounds t).1 (toI32_bounds t).2
  rw [componentNumbers] at h
  split at h
  · rw [← Option.some.inj h]
    exact hread _ _
  · simp only at h
    split at h
    · rw [← Option.some.inj h]
      exact hread _ _
    · exact absurd h (by simp)

theorem equalNumbers_iff {x y : List Char} {lf ls : Nat} {cmpSuf : Int} :
    ((componentNumbers x y lf ls).map fun n => finishStep false (toI32 (n.1 - n.2)) cmpSuf) = some .next ↔
      (∃ n, componentNumbers x y lf ls = some (n, n)) ∧ cmpSuf = 0 := by
  constructor
  · intro h
    obtain ⟨n, hn, hfinish⟩ := Option.map_eq_some_iff.mp h
    obtain ⟨-, hcmp, hsuf⟩ := (finishStep_next _ _ _).mp hfinish
    have heq := (componentNumbers_bounds hn).mp hcmp
    refine ⟨⟨n.1, ?_⟩, hsuf⟩
    rw [hn]
    exact congrArg some (Prod.ext rfl heq.symm)
  · rintro ⟨⟨n, hn⟩, rfl⟩
    have hcmp : toI32 (n - n) = 0 := by
      rw [Int.sub_self]
      rfl
    rw [hn, Option.map_some, hcmp, (finishStep_next false 0 0).mpr ⟨rfl, rfl, rfl⟩]

theorem turn_star (x y a b : List Char) (xNext yNext : Bool) :
    turn x y a b true xNext yNext ≠ some .next := by
  intro h
  rw [turn] at h
  split at h
  · exact absurd h (by simp)
  · split at h
    · exact absurd h (by simp)
    · split at h
      · obtain ⟨n, -, hfinish⟩ := Option.map_eq_some_iff.mp h
        exact absurd ((finishStep_next _ _ _).mp hfinish).1 (by simp)
      · exact absurd h (by simp)

theorem compareStep_next {f s : VersionNode} {x y : List Char} (hf : f.v = some x) (hs : s.v = some y)
    (hpre : f.pre = s.pre) {xNext yNext : Bool} (hsafe : TurnSafe x y xNext yNext) :
    compareStep f s xNext yNext = some .next ↔ GoesOn x y xNext yNext := by
  rw [compareStep_eq hf hs hpre, if_pos ⟨hsafe.1, hsafe.2.1⟩, GoesOn]
  cases hx : endsStar x with
  | true => exact iff_of_false (turn_star x y _ _ xNext yNext) (by simp)
  | false =>
    cases hy : endsStar y with
    | true => exact iff_of_false (turn_star x y _ _ xNext yNext) (by simp)
    | false =>
      have hun : unstarred x y = (x, y) := by simp [unstarred, hx, hy]
      have hne : x ≠ [] ∧ y ≠ [] := ⟨hsafe.1, by simpa [hx] using hsafe.2.1⟩
      rw [hun, Bool.or_self, turn]
      cases h1 : yNext && endsLetter x with
      | true => simp
      | false =>
        cases h2 : xNext && endsLetter y with
        | true => simp [hne.1]
        | false =>
          rw [if_neg (by simp), if_neg (by simp), if_pos hne, equalNumbers_iff, Int.sub_eq_zero]
          simp

theorem chars_of_text {node : VersionNode} (h : node.v ≠ none) : node.v = some (chars node) := by
  cases hv : node.v with
  | none => exact absurd hv h
  | some x => simp [chars, hv]

/-- The comparison of two chains with all texts set gets through exactly when every turn
it makes is safe. -/
theorem compareLoop_ne_none (revs : Int) {fs ss : List VersionNode} (hf : ∀ f ∈ fs, f.v ≠ none)
    (hs : ∀ s ∈ ss, s.v ≠ none) : compareLoop revs fs ss ≠ none ↔ Safe fs ss := by
  induction fs generalizing ss with
  | nil => cases ss <;> simp [compareLoop, Safe]
  | cons f fs ih =>
    cases ss with
    | nil => simp [compareLoop, Safe]
    | cons s ss =>
      obtain ⟨hf, hfs⟩ := List.forall_mem_cons.mp hf
      obtain ⟨hs, hss⟩ := List.forall_mem_cons.mp hs
      rw [VersionStar.compareLoop_cons, Safe]
      by_cases hpre : f.pre = s.pre
      · have hstep := compareStep_ne_none (chars_of_text hf) (chars_of_text hs) hpre (!fs.isEmpty) (!ss.isEmpty)
        simp only [hpre, true_imp_iff]
        by_cases hsafe : TurnSafe (chars f) (chars s) (!fs.isEmpty) (!ss.isEmpty)
        · have hnext := compareStep_next (chars_of_text hf) (chars_of_text hs) hpre hsafe
          rw [← hnext, and_iff_right hsafe, ← ih hfs hss]
          cases hc : compareStep f s (!fs.isEmpty) (!ss.isEmpty) with
          | none => exact absurd hc (hstep.mpr hsafe)
          | some r => cases r <;> simp [VersionText.resume]
        · have hnone := not_not.mp (mt hstep.mp hsafe)
          rw [hnone]
          exact iff_of_false (by simp) fun h => hsafe h.1
      · have hret : compareStep f s (!fs.isEmpty) (!ss.isEmpty) = some (.ret (f.pre.val - s.pre.val)) := by
          rw [compareStep, if_pos hpre]
        rw [hret]
        exact iff_of_true (by simp [VersionText.resume]) fun h => absurd h hpre

theorem compare_safe_iff {first second : List Char}
    (hfirst : (atomVersionInit first).fullVersion ≠ none)
    (hsecond : (atomVersionInit second).fullVersion ≠ none) :
    atomVersionCompare (some (atomVersionInit first)) (some (atomVersionInit second)) ≠ none ↔
      Safe (atomVersionInit first).nodes (atomVersionInit second).nodes :=
  compareLoop_ne_none _ ((complete_iff first).mpr hfirst).2 ((complete_iff second).mpr hsecond).2

/-- `1` and `1.0`: nothing is read behind the shorter one. -/
theorem compare_safe_one : atomVersionCompare (some (atomVersionInit "1".toList))
      (some (atomVersionInit "1.0".toList)) ≠ none ↔
    Safe (atomVersionInit "1".toList).nodes (atomVersionInit "1.0".toList).nodes :=
  compare_safe_iff (by decide) (by decide)

theorem empty_not_safe : ¬ ∀ first second : List Char, (atomVersionInit first).fullVersion ≠ none →
    (atomVersionInit second).fullVersion ≠ none →
      atomVersionCompare (some (atomVersionInit first)) (some (atomVersionInit second)) ≠ none := by
  intro h
  exact h [] ['1'] (by decide) (by decide) (by decide)

end VersionSafety

end AutoGentoo
