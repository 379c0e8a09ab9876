import AutoGentoo.AtomVersion

/-! The `version` macro of the lexer and the chain `atom_version_init` builds
from a string it matches. -/

namespace AutoGentoo

open CString

/-- `[0-9]+` -/
abbrev Digits := { s : List Char // s ≠ [] ∧ ∀ c ∈ s, c.isDigit = true }

/-- The number a text of digits is, any other text being taken for `0`. -/
def Digits.of (s : String) : Digits :=
  if h : s.toList ≠ [] ∧ s.toList.all Char.isDigit = true then
    ⟨s.toList, h.1, List.all_eq_true.mp h.2⟩
  else ⟨['0'], by simp, by simp⟩

/-- `[0-9]*` -/
abbrev OptDigits := { s : List Char // ∀ c ∈ s, c.isDigit = true }

def Digits.optional (d : Digits) : OptDigits := ⟨d.1, d.2.2⟩

/-- `[A-Za-z]` -/
abbrev Letter := { c : Char // c.isAlpha = true }

inductive SuffixWord
  | alpha | beta | pre | rc | p
  deriving DecidableEq, Repr

def SuffixWord.text : SuffixWord → List Char
  | alpha => "alpha".toList | beta => "beta".toList | pre => "pre".toList
  | rc => "rc".toList | p => "p".toList

def SuffixWord.kind : SuffixWord → AtomPrefix
  | alpha => .alpha | beta => .beta | pre => .pre | rc => .rc | p => .p

/-- A parse of `[0-9]+(\.[0-9]+)*[letter]?{version_suf}*{revision}?`. -/
structure VersionText where
  first : Digits
  more : List Digits
  letter : Option Letter
  suffixes : List (SuffixWord × OptDigits)
  revision : Option Digits

namespace VersionText

def letterText (l : Option Letter) : List Char := (l.map Subtype.val).toList

def numericText : Digits → List Digits → Option Letter → List Char
  | d, [], l => d.1 ++ letterText l
  | d, e :: more, l => d.1 ++ '.' :: numericText e more l

def suffixText (s : SuffixWord × OptDigits) : List Char := '_' :: (s.1.text ++ s.2.1)

def revisionText : Option Digits → List Char
  | none => []
  | some r => '-' :: 'r' :: r.1

def body (t : VersionText) : List Char :=
  numericText t.first t.more t.letter ++ t.suffixes.flatMap suffixText

def render (t : VersionText) : List Char := t.body ++ revisionText t.revision

end VersionText

/-- A component as the comparison sees it: digits, then letters. -/
structure VersionPart where
  pre : AtomPrefix
  digits : OptDigits
  letters : { s : List Char // ∀ c ∈ s, c.isAlpha = true }
  nonempty : digits.1 ++ letters.1 ≠ []

namespace VersionPart

def text (x : VersionPart) : List Char := x.digits.1 ++ x.letters.1

def toNode (x : VersionPart) : VersionNode := { v := some x.text, pre := x.pre }

theorem letterText_alpha (l : Option Letter) :
    ∀ c ∈ VersionText.letterText l, c.isAlpha = true := by
  cases l with
  | none => simp [VersionText.letterText]
  | some c => simpa [VersionText.letterText] using c.2

def numeric (d : Digits) (l : Option Letter) : VersionPart where
  pre := .none
  digits := ⟨d.1, d.2.2⟩
  letters := ⟨VersionText.letterText l, letterText_alpha l⟩
  nonempty := by simp [d.2.1]

theorem text_alpha (w : SuffixWord) : ∀ c ∈ w.text, c.isAlpha = true := by
  have hall : w.text.all Char.isAlpha = true := by cases w <;> decide
  exact List.all_eq_true.mp hall

/-- A suffix keyword without a number is kept as a component of its own. -/
def suffix (s : SuffixWord × OptDigits) : VersionPart :=
  if h : s.2.1 = [] then
    { pre := .none
      digits := ⟨[], by simp⟩
      letters := ⟨s.1.text, text_alpha s.1⟩
      nonempty := by cases s.1 <;> decide }
  else
    { pre := s.1.kind
      digits := s.2
      letters := ⟨[], by simp⟩
      nonempty := by simpa using h }

end VersionPart

namespace VersionText

open VersionPart

def numericParts : Digits → List Digits → Option Letter → List VersionPart
  | d, [], l => [numeric d l]
  | d, e :: more, l => numeric d none :: numericParts e more l

def parts (t : VersionText) : List VersionPart :=
  numericParts t.first t.more t.letter ++ t.suffixes.map suffix

def revisionVal (t : VersionText) : Int :=
  match t.revision with
  | none => 0
  | some r => toI32 (clampLong (digitsVal r.1))

theorem digit_not_split {c : Char} (h : c.isDigit = true) : isVersionSplit c = false := by
  have hc := isDigit_cases h
  have hne : ∀ d ∈ "._-".toList, c ≠ d := by
    intro d hd he
    subst he
    have hall : "._-".toList.all (!·.isDigit) = true := by decide
    have hc := List.all_eq_true.mp hall c hd
    simp [h] at hc
  simp [isVersionSplit, hne '.' (by decide), hne '_' (by decide), hne '-' (by decide)]

theorem alpha_not_split {c : Char} (h : c.isAlpha = true) : isVersionSplit c = false := by
  have hne : ∀ d ∈ "._-".toList, c ≠ d := by
    intro d hd he
    subst he
    have hall : "._-".toList.all (!·.isAlpha) = true := by decide
    have hc := List.all_eq_true.mp hall c hd
    simp [h] at hc
  simp [isVersionSplit, hne '.' (by decide), hne '_' (by decide), hne '-' (by decide)]

theorem part_not_split (x : VersionPart) : ∀ c ∈ x.text, isVersionSplit c = false := by
  intro c hc
  rcases List.mem_append.mp hc with hd | hl
  · exact digit_not_split (x.digits.2 c hd)
  · exact alpha_not_split (x.letters.2 c hl)

/-- The piece between two separators from which a part is read. -/
def suffixPiece (s : SuffixWord × OptDigits) : List Char := s.1.text ++ s.2.1

theorem suffixPiece_not_split (s : SuffixWord × OptDigits) :
    ∀ c ∈ suffixPiece s, isVersionSplit c = false := by
  intro c hc
  rcases List.mem_append.mp hc with hl | hd
  · exact alpha_not_split (text_alpha s.1 c hl)
  · exact digit_not_split (s.2.2 c hd)

theorem split_suffixes {x : List Char} (hx : ∀ c ∈ x, isVersionSplit c = false)
    (l : List (SuffixWord × OptDigits)) :
    (x ++ l.flatMap suffixText).splitOnP isVersionSplit = x :: l.map suffixPiece := by
  induction l generalizing x with
  | nil => simpa using List.splitOnP_eq_singleton hx
  | cons s l ih =>
    have he : x ++ (s :: l).flatMap suffixText =
        x ++ '_' :: (suffixPiece s ++ l.flatMap suffixText) := by
      simp [suffixText, suffixPiece]
    rw [he, List.splitOnP_append_cons_of_forall_mem hx '_' (by decide),
      ih (suffixPiece_not_split s)]
    rfl

theorem split_body (d : Digits) (more : List Digits) (l : Option Letter)
    (s : List (SuffixWord × OptDigits)) :
    (numericText d more l ++ s.flatMap suffixText).splitOnP isVersionSplit =
      (numericParts d more l).map text ++ s.map suffixPiece := by
  induction more generalizing d with
  | nil => exact split_suffixes (part_not_split (numeric d l)) s
  | cons e more ih =>
    have he : numericText d (e :: more) l ++ s.flatMap suffixText =
        (numeric d none).text ++ '.' :: (numericText e more l ++ s.flatMap suffixText) := by
      simp [numericText, VersionPart.text, numeric, letterText]
    rw [he, List.splitOnP_append_cons_of_forall_mem (part_not_split _) '.' (by decide), ih]
    rfl

theorem versionNode_numeric (d : Digits) (l : Option Letter) :
    versionNode (numeric d l).text = some (numeric d l).toNode := by
  obtain ⟨s, hne, hs⟩ := d
  cases s with
  | nil => exact absurd rfl hne
  | cons c s =>
    have hc : c ∈ numerals := (mem_numerals_iff c).mpr (hs c (by simp))
    have hp : strpbrk (numeric ⟨c :: s, hne, hs⟩ l).text numerals = some 0 :=
      strpbrk_append (p := []) (by simp) hc
    simp only [versionNode, hp, Option.getD_some, List.drop_zero]
    rfl

theorem versionNode_suffix (s : SuffixWord × OptDigits) :
    versionNode (suffixPiece s) = some (suffix s).toNode := by
  obtain ⟨w, ds, hds⟩ := s
  have hall : w.text.all (!numerals.contains ·) = true := by cases w <;> decide
  have hw : ∀ c ∈ w.text, c ∉ numerals := by simpa using hall
  cases ds with
  | nil =>
    have hp : strpbrk (suffixPiece (w, ⟨[], hds⟩)) numerals = none :=
      strpbrk_eq_none (by simpa [suffixPiece] using hw)
    simp only [versionNode, hp, Option.getD_none, List.drop_zero]
    simp [atomPrefixLinks, toNode, suffix, VersionPart.text, suffixPiece]
  | cons c ds =>
    have hc : c ∈ numerals := (mem_numerals_iff c).mpr (hds c (by simp))
    have hp : strpbrk (suffixPiece (w, ⟨c :: ds, hds⟩)) numerals =
        some w.text.length := strpbrk_append hw hc
    have hk : atomPrefixLinks w.text.length = some w.kind := by cases w <;> rfl
    simp only [versionNode, hp, Option.getD_some, hk]
    simp [toNode, suffix, VersionPart.text, suffixPiece]

theorem versionNodes_append {l : List (List Char)} {ns : List VersionNode}
    (h : l.map versionNode = ns.map some) (r : List (List Char)) :
    versionNodes (l ++ r) = (ns ++ (versionNodes r).1, (versionNodes r).2) := by
  induction l generalizing ns with
  | nil =>
    have hn : ns = [] := by simpa using h.symm
    simp [hn]
  | cons x l ih =>
    cases ns with
    | nil => simp at h
    | cons n ns =>
      simp only [List.map_cons, List.cons.injEq] at h
      simp [versionNodes, h.1, ih h.2]

theorem versionNodes_pieces (t : VersionText) :
    versionNodes (t.body.splitOnP isVersionSplit) = (t.parts.map toNode, true) := by
  have hn : ∀ d more, ((numericParts d more t.letter).map text).map versionNode =
      ((numericParts d more t.letter).map toNode).map some := by
    intro d more
    induction more generalizing d with
    | nil => simp [numericParts, versionNode_numeric]
    | cons e more ih => simp only [numericParts, List.map_cons, versionNode_numeric, ih]
  have hs : (t.suffixes.map suffixPiece).map versionNode =
      ((t.suffixes.map suffix).map toNode).map some := by
    simp [List.map_map, Function.comp_def, versionNode_suffix]
  have hh := versionNodes_append hs []
  simp only [List.append_nil, versionNodes] at hh
  rw [body, split_body, versionNodes_append (hn _ _), hh]
  simp [parts]

theorem dash_not_mem_body (t : VersionText) : '-' ∉ t.body := by
  have hd : ∀ d : Digits, '-' ∉ d.1 := fun d h => by simpa using d.2.2 _ h
  have hn : ∀ d more, '-' ∉ numericText d more t.letter := by
    intro d more
    induction more generalizing d with
    | nil =>
      intro h
      rcases List.mem_append.mp h with h | h
      · exact hd d h
      · simpa using letterText_alpha t.letter _ h
    | cons e more ih =>
      intro h
      rcases List.mem_append.mp h with h | h
      · exact hd d h
      · simp only [List.mem_cons, ih e, or_false] at h
        exact absurd h (by decide)
  intro h
  rcases List.mem_append.mp h with h | h
  · exact hn _ _ h
  · obtain ⟨s, -, hs⟩ := List.mem_flatMap.mp h
    have hns := suffixPiece_not_split s '-'
    simp only [suffixText, List.mem_cons] at hs
    rcases hs with hs | hs
    · exact absurd hs (by decide)
    · exact absurd (hns hs) (by decide)

theorem splitRevision_render (t : VersionText) :
    splitRevision t.render = (t.revisionVal, t.body) := by
  cases hr : t.revision with
  | none =>
    have hd : strrchr t.render '-' = none :=
      strrchr_eq_none (by simpa [render, revisionText, hr] using t.dash_not_mem_body)
    simp only [splitRevision, hd]
    simp [revisionVal, hr, render, revisionText]
  | some r =>
    have hnot : '-' ∉ 'r' :: r.1 := by
      intro h
      rcases List.mem_cons.mp h with h | h
      · exact absurd h (by decide)
      · simpa using r.2.2 _ h
    have he : t.render = t.body ++ '-' :: 'r' :: r.1 := by simp [render, hr, revisionText]
    have hd : strrchr t.render '-' = some t.body.length := by rw [he, strrchr_append hnot]
    have hval : strtol r.1 = clampLong (digitsVal r.1) := by
      simpa using strtol_digits (t := []) r.2.2 (by simp)
    simp only [splitRevision, hd]
    simp [he, revisionVal, hr, hval]

theorem parts_ne_nil (t : VersionText) : t.parts ≠ [] := by
  cases hm : t.more <;> simp [parts, hm, numericParts]

theorem init_render (t : VersionText) :
    (atomVersionInit t.render).fullVersion = some t.render ∧
      (atomVersionInit t.render).nodes = t.parts.map toNode ∧
      (atomVersionInit t.render).revision = t.revisionVal := by
  have hp : t.parts.map toNode ≠ [] := by simpa using t.parts_ne_nil
  have hc : ∀ (l : List VersionNode) d, l ≠ [] → l.headD d :: l.tail = l := by
    intro l d hl
    cases l with
    | nil => exact absurd rfl hl
    | cons x l => rfl
  simp only [atomVersionInit, splitRevision_render, versionNodes_pieces, AtomVersion.nodes,
    hc _ _ hp, if_true, and_self]

end VersionText

end AutoGentoo
