import AutoGentoo.VersionGrammar

/-! One turn of the comparison loop on components of the grammar, where no
string is empty and no star occurs. -/

namespace AutoGentoo

open CString

namespace VersionPart

def hasLetter (x : VersionPart) : Bool := !x.letters.1.isEmpty

/-- The last letter as the comparison subtracts it. -/
def letterVal (x : VersionPart) : Int :=
  match x.letters.1.getLast? with
  | some c => charVal c
  | none => 0

def number (x : VersionPart) : Nat := digitsVal x.digits.1

/-- No zero in front, unless the component is that zero. -/
def Plain (x : VersionPart) : Prop := plainNumber x.text x.text.length

instance (x : VersionPart) : Decidable x.Plain := inferInstanceAs (Decidable (plainNumber _ _))

/-- The number read after zeros are appended up to `m` characters; they stand
behind the letter, where there is one. -/
def paddedNumber (x : VersionPart) (m : Nat) : Nat :=
  if x.hasLetter then x.number else x.number * 10 ^ (m - x.text.length)

def read (n : Nat) : Int := toI32 (clampLong n)

def numbers (x y : VersionPart) : Option (Int × Int) :=
  if x.Plain ∧ y.Plain then some (read x.number, read y.number)
  else
    let m := max x.text.length y.text.length
    if m < 128 then some (read (x.paddedNumber m), read (y.paddedNumber m)) else none

def step (x y : VersionPart) (xNext yNext : Bool) : Option CompareStep :=
  if x.pre ≠ y.pre then some (.ret (x.pre.val - y.pre.val))
  else if yNext && x.hasLetter then some (.ret (-1))
  else if xNext && y.hasLetter then some (.ret 1)
  else (numbers x y).map fun n => finishStep false (toI32 (n.1 - n.2)) (x.letterVal - y.letterVal)

theorem text_ne_nil (x : VersionPart) : x.text ≠ [] := x.nonempty

theorem endChar_length {s : List Char} (h : s ≠ []) : endChar s s.length = some (s.getLast h) := by
  cases s with
  | nil => exact absurd rfl h
  | cons c s =>
    rw [List.length_cons, endChar, List.getLast_eq_getElem]
    simp

theorem charVal_nine : charVal '9' = 57 := charVal_ascii (c := '9') (by decide)

theorem alpha_aboveNine {c : Char} (h : c.isAlpha = true) : aboveNine c = true := by
  have hc := isAlpha_cases h
  simp only [aboveNine, charVal_nine, charVal_ascii (c := c) (by omega), decide_eq_true_eq]
  omega

theorem digit_not_aboveNine {c : Char} (h : c.isDigit = true) : aboveNine c = false := by
  have hc := isDigit_cases h
  simp only [aboveNine, charVal_nine, charVal_ascii (c := c) (by omega), decide_eq_false_iff_not]
  omega

theorem letters_nil_iff (x : VersionPart) : x.hasLetter = false ↔ x.letters.1 = [] := by
  simp [hasLetter]

/-- The last character decides between a plain number and a letter. -/
theorem last_char (x : VersionPart) :
    ∃ c, x.text.getLast x.text_ne_nil = c ∧ c ≠ '*' ∧ aboveNine c = x.hasLetter ∧
      suffixVal c = x.letterVal := by
  refine ⟨_, rfl, ?_⟩
  cases hl : x.letters.1.getLast? with
  | none =>
    have hnil : x.letters.1 = [] := by simpa using hl
    have hd : x.digits.1 ≠ [] := by simpa [hnil] using x.nonempty
    have he : x.text.getLast x.text_ne_nil = x.digits.1.getLast hd := by
      simp [VersionPart.text, hnil]
    have hdig := x.digits.2 _ (List.getLast_mem hd)
    rw [he]
    refine ⟨?_, ?_, ?_⟩
    · intro hs
      rw [hs] at hdig
      exact absurd hdig (by decide)
    · rw [digit_not_aboveNine hdig, (letters_nil_iff x).mpr hnil]
    · simp [suffixVal, digit_not_aboveNine hdig, letterVal, hl]
  | some c =>
    have hne : x.letters.1 ≠ [] := by rintro he; simp [he] at hl
    have he : x.text.getLast x.text_ne_nil = c := by
      have hg : x.text.getLast? = some c := by
        simp [VersionPart.text, List.getLast?_append, hl]
      rw [List.getLast?_eq_some_getLast x.text_ne_nil] at hg
      exact Option.some.inj hg
    have halpha := x.letters.2 c (List.mem_of_getLast? hl)
    rw [he]
    refine ⟨?_, ?_, ?_⟩
    · intro hs
      rw [hs] at halpha
      exact absurd halpha (by decide)
    · simp [alpha_aboveNine halpha, hasLetter, hne]
    · simp [suffixVal, alpha_aboveNine halpha, letterVal, hl]

theorem endChar_text (x : VersionPart) :
    endChar x.text x.text.length = some (x.text.getLast x.text_ne_nil) :=
  endChar_length x.text_ne_nil

theorem starSkip_text (x y : VersionPart) :
    starSkip x.text y.text = some (false, x.text.length, y.text.length) := by
  obtain ⟨c, hc, hstar, -⟩ := x.last_char
  obtain ⟨d, hd, hstar', -⟩ := y.last_char
  simp [starSkip, endChar_text, hc, hd, hstar, hstar']

theorem letterRule_text (x y : VersionPart) (xNext yNext : Bool) :
    letterRule x.text y.text x.text.length y.text.length xNext yNext =
      some (if yNext && x.hasLetter then some (-1)
        else if xNext && y.hasLetter then some 1 else none) := by
  obtain ⟨c, hc, -, hl, -⟩ := x.last_char
  obtain ⟨d, hd, -, hl', -⟩ := y.last_char
  cases xNext <;> cases yNext <;> cases hx : x.hasLetter <;> cases hy : y.hasLetter <;>
    simp [letterRule, endChar_text, hc, hd, hl, hl', hx, hy]

theorem alpha_head {s t : List Char} (h : ∀ c ∈ s, c.isAlpha = true) (hs : s ≠ []) :
    ∀ c ∈ (s ++ t).head?, c.isDigit = false ∧ isSpace c = false ∧ c ≠ '-' ∧ c ≠ '+' := by
  intro c hc
  cases s with
  | nil => exact absurd rfl hs
  | cons d s =>
    have he : d = c := by simpa using hc
    have ha := h c (by simp [he])
    have hcases := isAlpha_cases ha
    refine ⟨?_, ?_, ?_, ?_⟩
    · by_contra hd
      have := isDigit_cases (by simpa using hd)
      omega
    · have hsp : c ≠ ' ' := fun he => by rw [he] at ha; exact absurd ha (by decide)
      simp only [isSpace, Bool.or_eq_false_iff, beq_eq_false_iff_ne, ne_eq, hsp,
        not_false_eq_true, Bool.and_eq_false_iff, decide_eq_false_iff_not, true_and]
      omega
    · intro he; rw [he] at ha; exact absurd ha (by decide)
    · intro he; rw [he] at ha; exact absurd ha (by decide)

theorem strtol_text (x : VersionPart) : strtol x.text = clampLong x.number := by
  cases hl : x.hasLetter with
  | false =>
    rw [letters_nil_iff] at hl
    simpa [VersionPart.text, hl, number] using strtol_digits (t := []) x.digits.2 (by simp)
  | true =>
    have hne : x.letters.1 ≠ [] := by simpa [hasLetter] using hl
    exact strtol_digits x.digits.2
      (by simpa using alpha_head (t := []) x.letters.2 hne)

theorem strtol_padded (x : VersionPart) (m : Nat) :
    strtol (paddedComponent x.text x.text.length m) = clampLong (x.paddedNumber m) := by
  have htake : x.text.take x.text.length = x.text := List.take_length
  simp only [paddedComponent, htake, paddedNumber]
  cases hl : x.hasLetter with
  | false =>
    have hnil := (letters_nil_iff x).mp hl
    have hz : ∀ c ∈ x.digits.1 ++ List.replicate (m - x.text.length) '0', c.isDigit = true := by
      intro c hc
      rcases List.mem_append.mp hc with hc | hc
      · exact x.digits.2 c hc
      · rw [List.eq_of_mem_replicate hc]; decide
    have hs := strtol_digits (t := []) hz (by simp)
    rw [digitsVal_zeros, List.append_nil] at hs
    have ht : x.text = x.digits.1 := by simp [VersionPart.text, hnil]
    simpa [number, ht] using hs
  | true =>
    have hne : x.letters.1 ≠ [] := by simpa [hasLetter] using hl
    simpa [VersionPart.text, number, List.append_assoc] using
      strtol_digits x.digits.2
        (alpha_head (t := List.replicate (m - x.text.length) '0') x.letters.2 hne)

theorem componentNumbers_text (x y : VersionPart) :
    componentNumbers x.text y.text x.text.length y.text.length = numbers x y := by
  simp only [componentNumbers, numbers, strtol_text, strtol_padded, read]
  rfl

/-- The loop body on two components of the grammar. -/
theorem compareStep_toNode (x y : VersionPart) (xNext yNext : Bool) :
    compareStep x.toNode y.toNode xNext yNext = step x y xNext yNext := by
  obtain ⟨c, hc, -, -, hs⟩ := x.last_char
  obtain ⟨d, hd, -, -, hs'⟩ := y.last_char
  by_cases hp : x.pre = y.pre
  · have hx : x.toNode.v = some x.text := rfl
    have hy : y.toNode.v = some y.text := rfl
    have hpre : x.toNode.pre = y.toNode.pre := hp
    simp only [compareStep, hpre, hx, hy, ne_eq, not_true_eq_false, if_false, starSkip_text,
      letterRule_text, endChar_text, componentNumbers_text, Option.bind_eq_bind,
      Option.bind_some, hc, hd, hs, hs', step, hp]
    split_ifs
    · rfl
    · rfl
    · cases numbers x y <;> rfl
  · simp [compareStep, step, hp, toNode]

end VersionPart

namespace VersionText

open VersionPart

/-- `atom_version_compare` on the versions two strings of the grammar give. -/
def compare (s t : VersionText) : Option Int :=
  atomVersionCompare (some (atomVersionInit s.render)) (some (atomVersionInit t.render))

def loop (revs : Int) (xs ys : List VersionPart) : Option Int :=
  compareLoop revs (xs.map toNode) (ys.map toNode)

theorem compare_eq (s t : VersionText) :
    compare s t = loop (toI32 (s.revisionVal - t.revisionVal)) s.parts t.parts := by
  obtain ⟨-, hn, hr⟩ := s.init_render
  obtain ⟨-, hn', hr'⟩ := t.init_render
  simp only [compare, atomVersionCompare, hn, hn', hr, hr', loop]

@[simp] theorem loop_nil (revs : Int) : loop revs [] [] = some revs := rfl

@[simp] theorem loop_cons_nil (revs : Int) (x : VersionPart) (xs : List VersionPart) :
    loop revs (x :: xs) [] = some 1 := rfl

@[simp] theorem loop_nil_cons (revs : Int) (y : VersionPart) (ys : List VersionPart) :
    loop revs [] (y :: ys) = some (-1) := rfl

/-- The result of a turn, the rest of the loop given by `rest`. -/
def resume (rest : Option Int) : CompareStep → Option Int
  | .ret cmp => some cmp
  | .next => rest

theorem loop_cons (revs : Int) (x y : VersionPart) (xs ys : List VersionPart) :
    loop revs (x :: xs) (y :: ys) =
      (step x y (!xs.isEmpty) (!ys.isEmpty)).bind (resume (loop revs xs ys)) := by
  have hx : (xs.map toNode).isEmpty = xs.isEmpty := by simp
  have hy : (ys.map toNode).isEmpty = ys.isEmpty := by simp
  simp only [loop, List.map_cons, compareLoop, compareStep_toNode, hx, hy, Option.bind_eq_bind]
  congr 1

end VersionText

end AutoGentoo
