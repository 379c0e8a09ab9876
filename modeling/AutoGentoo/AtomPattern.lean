import AutoGentoo.AtomNames

/-! The texts of the token ATOM and what its action hands to the parser. -/

namespace AutoGentoo

open CString

/-- `[-\.]?` before a version. -/
inductive VersionMark
  | dash | dot | nothing
  deriving DecidableEq, Repr

def VersionMark.text : VersionMark → List Char
  | dash => ['-'] | dot => ['.'] | nothing => []

/-- A parse of `{identifier}\\/{identifier}(?:[-\\.]?(?:{version}))?[\\*]?`. -/
structure AtomText where
  category : Identifier
  name : Identifier
  version : Option (VersionMark × VersionText)
  star : Bool

namespace AtomText

def versionText : Option (VersionMark × VersionText) → List Char
  | none => []
  | some (mark, v) => mark.text ++ v.render

/-- The part behind the slash. -/
def nameIdent (t : AtomText) : List Char :=
  t.name.text ++ (versionText t.version ++ if t.star then ['*'] else [])

def text (t : AtomText) : List Char := t.category.text ++ '/' :: t.nameIdent

/-- The word the version is read from. -/
def versionWord (t : AtomText) : Option (List Char) :=
  AutoGentoo.versionWord (t.nameIdent.splitOn '-').tail.reverse

end AtomText

/-- The value of ATOM: an object with its texts NULL, an atom, or none because the
process ended. -/
inductive AtomValue
  | unset
  | atom (self : Atom)
  | crash
  deriving DecidableEq, Repr

/-- The action of `atom`, which does not look at the result of `atom_init`. -/
def atomAction (globalPortage : Option Lut) (yytext : List Char) : AtomValue :=
  match globalPortage with
  | none => .unset
  | some packages =>
    match atomInit packages yytext with
    | .ok self => .atom self
    | .error .invalid => .unset
    | .error .nullVersion => .crash

/-- Every text behind a version is set. -/
def AtomVersion.Complete (version : AtomVersion) : Prop :=
  version.fullVersion ≠ none ∧ ∀ node ∈ version.nodes, node.v ≠ none

/-- ATOM is returned in any case, so a failure does not keep the object from the parser. -/
def AtomValue.Safe (value : AtomValue) : Prop :=
  ∃ atom, value = .atom atom ∧ ∀ v, atom.version = some v → v.Complete

/-- A first digit, if there is any, has at most five characters in front of it. -/
def shortLead (piece : List Char) : Bool :=
  !piece.any Char.isDigit || (piece.takeWhile (!·.isDigit)).length ≤ 5

/-- A global_portage is there, and no piece of the word the version is read from has a
longer text in front of its digits than the longest keyword. -/
def AtomText.Readable (t : AtomText) (globalPortage : Option Lut) : Prop :=
  globalPortage ≠ none ∧
    ∀ w, t.versionWord = some w → ∀ piece ∈ w.splitOnP isVersionSplit, shortLead piece = true

theorem strpbrk_numerals (piece : List Char) : (strpbrk piece numerals).getD 0 =
    if piece.any Char.isDigit then (piece.takeWhile (!·.isDigit)).length else 0 := by
  induction piece with
  | nil => rfl
  | cons c s ih =>
    rw [strpbrk, List.findIdx?_cons]
    cases hc : c.isDigit with
    | true =>
      have hm : c ∈ numerals := (mem_numerals_iff c).mpr hc
      simp [hc, hm]
    | false =>
      have hm : c ∉ numerals := fun h => by simp [(mem_numerals_iff c).mp h] at hc
      rw [strpbrk] at ih
      simp only [hm, decide_false, Bool.false_eq_true, if_false, List.any_cons, hc, Bool.false_or,
        List.takeWhile_cons, Bool.not_false, if_true, List.length_cons]
      cases hs : s.findIdx? (· ∈ numerals) with
      | none =>
        have hany : s.any Char.isDigit = false := by
          rw [List.findIdx?_eq_none_iff] at hs
          simp only [List.any_eq_false]
          intro x hx hd
          simpa [(mem_numerals_iff x).mpr hd] using hs x hx
        simp [hany]
      | some i =>
        have hany : s.any Char.isDigit = true := by
          obtain ⟨hi, hmem, -⟩ := List.findIdx?_eq_some_iff_getElem.mp hs
          exact List.any_eq_true.mpr ⟨_, List.getElem_mem hi, (mem_numerals_iff _).mp (by simpa using hmem)⟩
        rw [hs, hany] at ih
        simpa [hany] using ih

theorem atomPrefixLinks_isSome (n : Nat) : (atomPrefixLinks n).isSome = true ↔ n ≤ 5 := by
  constructor
  · intro h
    unfold atomPrefixLinks at h
    split at h <;> first | omega | simp at h
  · intro h
    unfold atomPrefixLinks
    split <;> first | rfl | (exfalso; grind)

theorem versionNode_isSome (piece : List Char) :
    (versionNode piece).isSome = true ↔ shortLead piece = true := by
  rw [versionNode, Option.isSome_map, atomPrefixLinks_isSome, strpbrk_numerals, shortLead]
  cases piece.any Char.isDigit <;> simp

theorem versionNodes_end (pieces : List (List Char)) :
    (versionNodes pieces).2 = true ↔ ∀ piece ∈ pieces, shortLead piece = true := by
  induction pieces with
  | nil => simp [versionNodes]
  | cons piece rest ih =>
    have hsome := versionNode_isSome piece
    rw [versionNodes, List.forall_mem_cons, ← ih, ← hsome]
    cases versionNode piece <;> simp

theorem versionNode_text {piece : List Char} {node : VersionNode} (h : versionNode piece = some node) :
    node.v ≠ none := by
  obtain ⟨kind, -, rfl⟩ := Option.map_eq_some_iff.mp h
  simp

theorem versionNodes_text (pieces : List (List Char)) :
    ∀ node ∈ (versionNodes pieces).1, node.v ≠ none := by
  induction pieces with
  | nil => simp [versionNodes]
  | cons piece rest ih =>
    rw [versionNodes]
    cases hp : versionNode piece with
    | none => simp
    | some node => exact List.forall_mem_cons.mpr ⟨versionNode_text hp, ih⟩

theorem fullVersion_ne_none (input : List Char) : (atomVersionInit input).fullVersion ≠ none ↔
    ∀ piece ∈ (splitRevision input).2.splitOnP isVersionSplit, shortLead piece = true := by
  rw [← versionNodes_end]
  show (if (versionNodes _).2 then some input else none) ≠ none ↔ _
  cases (versionNodes ((splitRevision input).2.splitOnP isVersionSplit)).2 <;> simp

/-- The loop that reaches the end has filled every node. -/
theorem complete_iff (input : List Char) :
    (atomVersionInit input).Complete ↔ (atomVersionInit input).fullVersion ≠ none := by
  constructor
  · exact fun h => h.1
  · intro h
    refine ⟨h, ?_⟩
    have hend := (versionNodes_end _).mpr ((fullVersion_ne_none input).mp h)
    have htext := versionNodes_text ((splitRevision input).2.splitOnP isVersionSplit)
    have hne := List.splitOnP_ne_nil isVersionSplit (splitRevision input).2
    obtain ⟨piece, rest, hpieces⟩ := List.exists_cons_of_ne_nil hne
    have hnodes : (atomVersionInit input).nodes =
        (versionNodes ((splitRevision input).2.splitOnP isVersionSplit)).1 := by
      rw [hpieces] at hend
      rw [AtomVersion.nodes, atomVersionInit, hpieces]
      cases hp : versionNode piece <;> simp_all [versionNodes]
    rw [hnodes]
    exact htext

theorem atomInit_dashed (packages : Lut) (category : { s : List Char // '/' ∉ s }) {name : List Char}
    {i : Nat} (hdash : versionDash name = some i) :
    (∃ atom, atomInit packages (category.1 ++ '/' :: name) = .ok atom) ↔
      (atomVersionInit (name.drop (i + 1))).fullVersion ≠ none := by
  simp only [atomInit, strchr_append category.2, drop_behind, hdash, Option.map_some]
  split
  · next hnone =>
    obtain ⟨v, hv, hfull⟩ := pyAtomHash_eq_none.mp hnone
    have hv' := Option.some.inj hv
    simp [hv', hfull]
  · next h hsome =>
    constructor
    · rintro - hfull
      rw [pyAtomHash_eq_none.mpr ⟨_, rfl, hfull⟩] at hsome
      exact absurd hsome (by simp)
    · exact fun _ => ⟨_, rfl⟩

theorem exists_dashed (s : List Char) : ∃ first more, s = dashed first more ∧ '-' ∉ first ∧
    ∀ w ∈ more, '-' ∉ w := by
  induction s with
  | nil => exact ⟨[], [], rfl, by simp, by simp⟩
  | cons c s ih =>
    obtain ⟨first, more, rfl, hfirst, hmore⟩ := ih
    by_cases hc : c = '-'
    · subst hc
      exact ⟨[], first :: more, by simp [dashed], by simp, List.forall_mem_cons.mpr ⟨hfirst, hmore⟩⟩
    · exact ⟨c :: first, more, rfl, by simp [hfirst, Ne.symm hc], hmore⟩

theorem splitOn_dashed {first : List Char} {more : List (List Char)} (hfirst : '-' ∉ first)
    (hmore : ∀ w ∈ more, '-' ∉ w) : (dashed first more).splitOn '-' = first :: more := by
  rw [dashed_eq_intercalate]
  exact List.splitOn_intercalate '-' (List.forall_mem_cons.mpr ⟨hfirst, hmore⟩) (by simp)

theorem versionDash_words (s : List Char) :
    (versionDash s).map (fun i => (splitRevision (s.drop (i + 1))).2) =
      versionWord (s.splitOn '-').tail.reverse := by
  obtain ⟨first, more, rfl, hfirst, hmore⟩ := exists_dashed s
  rw [splitOn_dashed hfirst hmore]
  exact versionDash_dashed hfirst hmore

namespace AtomText

theorem safe_bare {t : AtomText} (packages : Lut) (hdash : versionDash t.nameIdent = none) :
    (atomAction (some packages) t.text).Safe := by
  obtain ⟨atom, hinit, -, hversion⟩ := atomInit_bare packages t.category.category hdash
  refine ⟨atom, ?_, ?_⟩
  · rw [text, atomAction, Identifier.category] at *
    rw [hinit]
  · rw [hversion]
    simp

theorem safe_dashed {t : AtomText} (packages : Lut) {i : Nat} (hdash : versionDash t.nameIdent = some i) :
    (atomAction (some packages) t.text).Safe ↔
      (atomVersionInit (t.nameIdent.drop (i + 1))).fullVersion ≠ none := by
  rw [← atomInit_dashed packages t.category.category hdash]
  constructor
  · rintro ⟨atom, hatom, -⟩
    refine ⟨atom, ?_⟩
    show atomInit packages t.text = .ok atom
    rw [atomAction] at hatom
    split at hatom
    · next h => rw [h, AtomValue.atom.inj hatom]
    · exact absurd hatom (by simp)
    · exact absurd hatom (by simp)
  · rintro ⟨atom, hinit⟩
    have hversion := atomInit_version t.category.category hinit
    refine ⟨atom, ?_, ?_⟩
    · have hinit' : atomInit packages t.text = .ok atom := hinit
      rw [atomAction, hinit']
    · intro v hv
      rw [hversion, hdash] at hv
      rw [← Option.some.inj hv]
      exact (complete_iff _).mpr ((atomInit_dashed packages t.category.category hdash).mp ⟨atom, hinit⟩)

theorem atomAction_safe_iff (globalPortage : Option Lut) (t : AtomText) :
    (atomAction globalPortage t.text).Safe ↔ t.Readable globalPortage := by
  cases globalPortage with
  | none =>
    constructor
    · rintro ⟨atom, h, -⟩
      exact absurd h (by simp [atomAction])
    · exact fun h => absurd rfl h.1
  | some packages =>
    have hwords := versionDash_words t.nameIdent
    cases hdash : versionDash t.nameIdent with
    | none =>
      rw [hdash] at hwords
      refine ⟨fun _ => ⟨by simp, ?_⟩, fun _ => safe_bare packages hdash⟩
      intro w hw
      exact absurd (hwords.trans hw) (by simp)
    | some i =>
      rw [hdash] at hwords
      rw [safe_dashed packages hdash, fullVersion_ne_none]
      have hw : t.versionWord = some (splitRevision (t.nameIdent.drop (i + 1))).2 := hwords.symm
      constructor
      · intro h
        refine ⟨by simp, ?_⟩
        intro w hw'
        rw [← Option.some.inj (hw.symm.trans hw')]
        exact h
      · exact fun h => h.2 _ hw

/-- `a/b-1_abcdef2` -/
def longLead : AtomText where
  category := { first := ⟨['a'], by decide⟩, more := [] }
  name := { first := ⟨['b'], by decide⟩, more := [⟨"1_abcdef2".toList, by decide⟩] }
  version := none
  star := false

theorem longLead_not_safe : ¬ ∀ (packages : Lut) (t : AtomText),
    (atomAction (some packages) t.text).Safe := by
  intro h
  obtain ⟨atom, hatom, -⟩ := h (Lut.lutNew 4) longLead
  have hcrash : atomAction (some (Lut.lutNew 4)) longLead.text = .crash := by decide
  exact absurd (hcrash.symm.trans hatom) (by simp)

end AtomText

end AutoGentoo
