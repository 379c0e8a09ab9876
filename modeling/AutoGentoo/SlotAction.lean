import AutoGentoo.RepositoryFiles
import AutoGentoo.DependGrammar

/-! The texts of the token SLOT and the value its action gives them. -/

namespace AutoGentoo

open CString

/-- `{slotname}` -/
def slotName : List Char → Bool
  | [] => false
  | c :: s => c.isAlphanum && s.all fun x => x.isAlphanum || "+_.-".toList.contains x

abbrev SlotName := { s : List Char // slotName s = true }

inductive SlotSign
  | star | equal
  deriving DecidableEq, Repr

def SlotSign.text : SlotSign → Char
  | star => '*' | equal => '='

/-- A slot with or without a sub-slot, or none, and an operator. -/
structure SlotText where
  slot : Option (SlotName × Option SlotName)
  operator : Option SlotSign

namespace SlotText

def subText (sub : Option SlotName) : List Char := (sub.map fun t => '/' :: t.1).getD []

def names : Option (SlotName × Option SlotName) → List Char
  | none => []
  | some (s, sub) => s.1 ++ subText sub

def text (t : SlotText) : List Char := ':' :: (names t.slot ++ (t.operator.map SlotSign.text).toList)

/-- What the text says. -/
def value (t : SlotText) : SlotToken where
  name := t.slot.map fun s => s.1.1
  subName := t.slot.bind fun s => s.2.map Subtype.val
  slotOpts := if t.operator = some .equal then .rebuild else .ignore

end SlotText

/-- The tests of the last character, with the length they leave. -/
def slotOperator (yytext : List Char) : AtomSlot × Nat :=
  if yytext.getLast? = some '*' then (.ignore, yytext.length - 1)
  else if yytext.getLast? = some '=' then (.rebuild, yytext.length - 1)
  else (.ignore, yytext.length)

/-- The action of `slot`. The text is not cut where `len` is shortened. -/
def slotAction (yytext : List Char) : SlotToken :=
  let operator := slotOperator yytext
  let len := operator.2
  let nameSplt := ((strchr (yytext.drop 1) '/').map (· + 1)).getD len
  if len ≤ 1 ∨ yytext[1]? = none then { name := none, subName := none, slotOpts := operator.1 }
  else
    { name := some ((yytext.drop 1).take (nameSplt - 1))
      subName := if yytext[nameSplt]? = none then none else some (yytext.drop (nameSplt + 1))
      slotOpts := operator.1 }

theorem slotName_chars {s : List Char} (h : slotName s = true) {c : Char} (hc : c ∈ s) :
    (c.isAlphanum || "+_.-".toList.contains c) = true := by
  cases s with
  | nil => exact absurd hc (by simp)
  | cons d s =>
    simp only [slotName, Bool.and_eq_true, List.all_eq_true] at h
    rcases List.mem_cons.mp hc with rfl | hc
    · rw [h.1, Bool.true_or]
    · exact h.2 c hc

theorem slotName_notMem {s : List Char} (h : slotName s = true) {c : Char}
    (hc : (c.isAlphanum || "+_.-".toList.contains c) = false) : c ∉ s := by
  intro hm
  rw [slotName_chars h hm] at hc
  exact absurd hc (by simp)

theorem slotName_ne_nil {s : List Char} (h : slotName s = true) : s ≠ [] := by
  rintro rfl
  exact absurd h (by simp [slotName])

namespace SlotText

theorem names_notMem {s : SlotName} {sub : Option SlotName} {c : Char} (hslash : c ≠ '/')
    (hc : (c.isAlphanum || "+_.-".toList.contains c) = false) : c ∉ names (some (s, sub)) := by
  intro h
  rcases List.mem_append.mp h with h | h
  · exact slotName_notMem s.2 hc h
  · cases sub with
    | none => exact absurd h (by simp [subText])
    | some t =>
      rcases List.mem_cons.mp h with h | h
      · exact hslash h
      · exact slotName_notMem t.2 hc h

/-- An operator is told from the last character of a name. -/
theorem slotOperator_text (s : SlotName) (sub : Option SlotName) (operator : Option SlotSign) :
    slotOperator (text { slot := some (s, sub), operator := operator }) =
      (if operator = some .equal then .rebuild else .ignore, (names (some (s, sub))).length + 1) := by
  cases operator with
  | some o => cases o <;> simp [slotOperator, text, SlotSign.text, List.getLast?_cons]
  | none =>
    have hstar : '*' ∉ names (some (s, sub)) := names_notMem (by decide) (by decide)
    have hequal : '=' ∉ names (some (s, sub)) := names_notMem (by decide) (by decide)
    have hlast : ∀ c, c ≠ ':' → c ∉ names (some (s, sub)) → (':' :: names (some (s, sub))).getLast? ≠ some c := by
      intro c hcolon hc h
      rcases List.mem_cons.mp (List.mem_of_getLast? h) with h | h
      · exact hcolon h
      · exact hc h
    simp [slotOperator, text, hlast '*' (by decide) hstar, hlast '=' (by decide) hequal]

/-- What is taken for the sub-slot: all that stands behind the slash, or behind the place of
the operator. -/
def readSub (sub : Option SlotName) (operator : Option SlotSign) : Option (List Char) :=
  match sub, operator with
  | none, none => none
  | none, some _ => some []
  | some t, operator => some (t.1 ++ (operator.map SlotSign.text).toList)

theorem strchr_notMem {s : List Char} {c : Char} (h : c ∉ s) : strchr s c = none := by
  rw [strchr, List.findIdx?_eq_none_iff]
  intro x hx
  exact beq_eq_false_iff_ne.mpr fun he => h (he ▸ hx)

theorem nameSplt_text (s : SlotName) (sub : Option SlotName) (operator : Option SlotSign) :
    ((strchr ((text { slot := some (s, sub), operator := operator }).drop 1) '/').map (· + 1)).getD
      ((names (some (s, sub))).length + 1) = s.1.length + 1 := by
  have hslash : '/' ∉ s.1 := slotName_notMem s.2 (by decide)
  cases sub with
  | none =>
    have hall : '/' ∉ s.1 ++ [] ++ (operator.map SlotSign.text).toList := by
      rcases operator with _ | _ | _ <;> simp [hslash, SlotSign.text]
    have hnone : strchr ((text { slot := some (s, none), operator := operator }).drop 1) '/' = none :=
      strchr_notMem hall
    rw [hnone]
    simp [names, subText]
  | some t =>
    have htext : (text { slot := some (s, some t), operator := operator }).drop 1 =
        s.1 ++ '/' :: (t.1 ++ (operator.map SlotSign.text).toList) := by
      simp [text, names, subText]
    rw [htext, strchr_append hslash]
    rfl

theorem slotAction_named (s : SlotName) (sub : Option SlotName) (operator : Option SlotSign) :
    slotAction (text { slot := some (s, sub), operator := operator }) =
      { name := some s.1
        subName := readSub sub operator
        slotOpts := if operator = some .equal then .rebuild else .ignore } := by
  have hne := slotName_ne_nil s.2
  have htext : text { slot := some (s, sub), operator := operator } =
      (':' :: s.1) ++ (subText sub ++ (operator.map SlotSign.text).toList) := by
    simp [text, names]
  have hget := get_behind (':' :: s.1) (subText sub ++ (operator.map SlotSign.text).toList) 0
  have hname : (((':' :: s.1) ++ (subText sub ++ (operator.map SlotSign.text).toList)).drop 1).take
      s.1.length = s.1 := List.take_left
  have hbehind : ((':' :: s.1) ++ (subText sub ++ (operator.map SlotSign.text).toList)).drop
      (s.1.length + 1 + 1) = (subText sub ++ (operator.map SlotSign.text).toList).drop 1 := by
    rw [← List.drop_drop, ← List.length_cons, List.drop_left]
  have hlong : ¬ ((names (some (s, sub))).length + 1 ≤ 1 ∨
      ((':' :: s.1) ++ (subText sub ++ (operator.map SlotSign.text).toList))[1]? = none) := by
    obtain ⟨c, rest, hs⟩ := List.exists_cons_of_ne_nil hne
    simp [names, hs]
  rw [slotAction, slotOperator_text]
  simp only [nameSplt_text]
  rw [htext, if_neg hlong, Nat.add_sub_cancel, hname, hbehind]
  simp only [List.length_cons, Nat.add_zero] at hget
  rw [hget]
  rcases sub with _ | t <;> rcases operator with _ | o <;> simp [subText, readSub]

theorem slotAction_nameless (operator : Option SlotSign) :
    slotAction (text { slot := none, operator := operator }) =
      value { slot := none, operator := operator } := by
  rcases operator with _ | _ | _ <;> rfl

theorem readSub_iff (sub : Option SlotName) (operator : Option SlotSign) :
    readSub sub operator = sub.map Subtype.val ↔ operator = none := by
  rcases sub with _ | t <;> rcases operator with _ | o <;> simp [readSub]

theorem slotAction_iff (t : SlotText) : slotAction t.text = t.value ↔ t.slot = none ∨ t.operator = none := by
  obtain ⟨slot, operator⟩ := t
  cases slot with
  | none => exact iff_of_true (slotAction_nameless operator) (.inl rfl)
  | some p =>
    obtain ⟨s, sub⟩ := p
    rw [slotAction_named]
    constructor
    · intro h
      exact .inr ((readSub_iff sub operator).mp (SlotToken.mk.inj h).2.1)
    · rintro (h | h)
      · exact absurd h (by simp)
      · rw [(readSub_iff sub operator).mpr h]
        rfl

/-- `:0=` -/
def zeroRebuild : SlotText where
  slot := some (⟨['0'], by decide⟩, none)
  operator := some .equal

theorem zeroRebuild_subName : ¬ ∀ t : SlotText, slotAction t.text = t.value := by
  intro h
  exact absurd (h zeroRebuild) (by decide)

end SlotText

end AutoGentoo
