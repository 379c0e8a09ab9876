import AutoGentoo.RepositoryFiles

/-! The `identifier` macro of the lexer, and where `atom_init` takes a version to begin in
a text cut into words at its dashes. -/

namespace AutoGentoo

open CString

/-- `{ident_word}` -/
def identWord : List Char → Bool
  | [] => false
  | c :: s => (c.isAlphanum || c == '_') && s.all fun x => x.isAlphanum || x == '+' || x == '_'

abbrev IdentWord := { s : List Char // identWord s = true }

def dashed (first : List Char) (more : List (List Char)) : List Char :=
  first ++ more.flatMap ('-' :: ·)

/-- A parse of `{ident_word}(?:-{ident_word})*`. -/
structure Identifier where
  first : IdentWord
  more : List IdentWord

def Identifier.text (self : Identifier) : List Char :=
  dashed self.first.1 (self.more.map Subtype.val)

def startsDigit (w : List Char) : Bool := digitAt w 0

def startsRevision (w : List Char) : Bool := w[0]? = some 'r' && digitAt w 1

/-- The word a version is taken to begin with, from the words behind the first one, the
last word first. -/
def versionWord : List (List Char) → Option (List Char)
  | [] => none
  | w :: rest =>
    if startsDigit w then some w
    else if startsRevision w then rest.head?.filter startsDigit
    else none

theorem identWord_chars {s : List Char} (h : identWord s = true) {c : Char} (hc : c ∈ s) :
    (c.isAlphanum || c == '+' || c == '_') = true := by
  cases s with
  | nil => exact absurd hc (by simp)
  | cons d s =>
    simp only [identWord, Bool.and_eq_true, List.all_eq_true] at h
    rcases List.mem_cons.mp hc with rfl | hc
    · have hd := h.1
      simp only [Bool.or_eq_true] at hd ⊢
      rcases hd with hd | hd
      · exact .inl (.inl hd)
      · exact .inr hd
    · exact h.2 c hc

theorem identWord_notMem {s : List Char} (h : identWord s = true) {c : Char}
    (hc : (c.isAlphanum || c == '+' || c == '_') = false) : c ∉ s := by
  intro hm
  exact absurd (identWord_chars h hm) (by simp [hc])

theorem dashed_append (first : List Char) (more : List (List Char)) (w : List Char) :
    dashed first (more ++ [w]) = dashed first more ++ '-' :: w := by
  simp [dashed]

theorem dashed_eq_intercalate (first : List Char) (more : List (List Char)) :
    dashed first more = ['-'].intercalate (first :: more) := by
  induction more generalizing first with
  | nil => simp [dashed]
  | cons w more ih =>
    rw [List.intercalate_cons_cons, ← ih]
    simp [dashed]

theorem digitAt_behind (p q : List Char) (k : Nat) : digitAt (p ++ q) (p.length + k) = digitAt q k := by
  rw [digitAt, digitAt, get_behind]

theorem splitRevision_word {w : List Char} (h : '-' ∉ w) : (splitRevision w).2 = w := by
  rw [splitRevision, strrchr_eq_none h]

theorem splitRevision_words {u w : List Char} (h : '-' ∉ w) (hw : startsRevision w = true) :
    (splitRevision (u ++ '-' :: w)).2 = u := by
  have hr : (u ++ '-' :: w)[u.length + 1]? = some 'r' := by
    rw [get_behind]
    simp only [startsRevision, Bool.and_eq_true, decide_eq_true_eq] at hw
    exact hw.1
  rw [splitRevision, strrchr_append h]
  simp only [hr, if_true]
  exact List.take_left

/-- What the test for a version finds when the second dash is looked for. -/
theorem secondDash_dashed {first : List Char} {more : List (List Char)} (hfirst : '-' ∉ first)
    (hmore : ∀ w ∈ more, '-' ∉ w) :
    ((strrchr (dashed first more) '-').filter fun i => digitAt (dashed first more) (i + 1)).map
        (fun i => (dashed first more).drop (i + 1)) = more.reverse.head?.filter startsDigit := by
  rcases List.eq_nil_or_concat' more with rfl | ⟨ms, u, rfl⟩
  · have hnone : strrchr (dashed first []) '-' = none := by
      simpa [dashed] using strrchr_eq_none hfirst
    rw [hnone]
    rfl
  · have hu : '-' ∉ u := hmore u (by simp)
    have hdigit : digitAt (dashed first ms ++ '-' :: u) ((dashed first ms).length + 1) =
        startsDigit u := by
      rw [digitAt_behind]
      rfl
    rw [dashed_append, strrchr_append hu, List.reverse_append]
    cases hd : startsDigit u <;> simp [Option.filter, hdigit, hd]

theorem digitAt_lt {s : List Char} {i : Nat} (h : digitAt s i = true) : i < s.length := by
  cases hs : s[i]? with
  | none => simp [digitAt, hs] at h
  | some c => exact (List.getElem?_eq_some_iff.mp hs).1

theorem versionDash_dashed {first : List Char} {more : List (List Char)} (hfirst : '-' ∉ first)
    (hmore : ∀ w ∈ more, '-' ∉ w) :
    (versionDash (dashed first more)).map
        (fun i => (splitRevision ((dashed first more).drop (i + 1))).2) = versionWord more.reverse := by
  rcases List.eq_nil_or_concat' more with rfl | ⟨ms, w, rfl⟩
  · have hnone : strrchr (dashed first []) '-' = none := by
      simpa [dashed] using strrchr_eq_none hfirst
    rw [versionDash, hnone]
    rfl
  · have hw : '-' ∉ w := hmore w (by simp)
    have hsecond := secondDash_dashed hfirst (fun u hu => hmore u (List.mem_append_left [w] hu))
    have hone := digitAt_behind (dashed first ms) ('-' :: w) 1
    have htwo := digitAt_behind (dashed first ms) ('-' :: w) 2
    have hget := get_behind (dashed first ms) ('-' :: w) 1
    have htake : (dashed first ms ++ '-' :: w).take (dashed first ms).length = dashed first ms :=
      List.take_left
    rw [dashed_append, versionDash, List.reverse_append]
    simp only [strrchr_append hw, hone, htwo, hget, htake]
    show Option.map _ (if startsDigit w = true then _ else if startsRevision w = true then _ else _) =
      if startsDigit w = true then _ else if startsRevision w = true then _ else _
    by_cases hd : startsDigit w = true
    · rw [if_pos hd, if_pos hd, Option.map_some, drop_behind, splitRevision_word hw]
    · rw [if_neg hd, if_neg hd]
      by_cases hr : startsRevision w = true
      · rw [if_pos hr, if_pos hr]
        show _ = ms.reverse.head?.filter startsDigit
        rw [← hsecond]
        cases hs : strrchr (dashed first ms) '-' with
        | none => rfl
        | some i =>
          simp only [Option.filter_some]
          by_cases hi : digitAt (dashed first ms) (i + 1) = true
          · rw [if_pos hi, Option.map_some, Option.map_some,
              List.drop_append_of_le_length (digitAt_lt hi).le, splitRevision_words hw hr]
          · rw [if_neg hi]
            rfl
      · rw [if_neg hr, if_neg hr]
        rfl

theorem versionDash_eq_none {first : List Char} {more : List (List Char)} (hfirst : '-' ∉ first)
    (hmore : ∀ w ∈ more, '-' ∉ w) :
    versionDash (dashed first more) = none ↔ versionWord more.reverse = none := by
  rw [← versionDash_dashed hfirst hmore, Option.map_eq_none_iff]

theorem atomInit_bare (packages : Lut) (category : { s : List Char // '/' ∉ s }) {name : List Char}
    (hdash : versionDash name = none) : ∃ atom, atomInit packages (category.1 ++ '/' :: name) = .ok atom ∧
      atom.key = category.1 ++ '/' :: name ∧ atom.version = none := by
  simp only [atomInit, strchr_append category.2, List.take_left, drop_behind, hdash, Option.map_none]
  exact ⟨_, rfl, rfl, rfl⟩

theorem atomInit_version {packages : Lut} (category : { s : List Char // '/' ∉ s }) {name : List Char}
    {atom : Atom} (h : atomInit packages (category.1 ++ '/' :: name) = .ok atom) :
    atom.version = (versionDash name).map fun i => atomVersionInit (name.drop (i + 1)) := by
  simp only [atomInit, strchr_append category.2, drop_behind] at h
  split at h
  · exact absurd h (by simp)
  · rw [← Except.ok.inj h]

namespace Identifier

theorem notMem_text (self : Identifier) {c : Char} (hdash : c ≠ '-')
    (hc : (c.isAlphanum || c == '+' || c == '_') = false) : c ∉ self.text := by
  intro h
  rcases List.mem_append.mp h with h | h
  · exact identWord_notMem self.first.2 hc h
  · obtain ⟨w, hw, hm⟩ := List.mem_flatMap.mp h
    obtain ⟨x, -, rfl⟩ := List.mem_map.mp hw
    rcases List.mem_cons.mp hm with hm | hm
    · exact hdash hm
    · exact identWord_notMem x.2 hc hm

/-- As the category of an atom. -/
def category (self : Identifier) : { s : List Char // '/' ∉ s } :=
  ⟨self.text, self.notMem_text (by decide) (by decide)⟩

theorem dash_notMem_first (self : Identifier) : '-' ∉ self.first.1 :=
  identWord_notMem self.first.2 (by decide)

theorem dash_notMem_more (self : Identifier) : ∀ w ∈ self.more.map Subtype.val, '-' ∉ w := by
  intro w hw
  obtain ⟨x, -, rfl⟩ := List.mem_map.mp hw
  exact identWord_notMem x.2 (by decide)

/-- No part behind a dash, up to another dash or the end, is a version. -/
def NoVersionInside (self : Identifier) : Prop :=
  ∀ part : Identifier, part.first :: part.more <:+: self.more → ∀ v : VersionText, part.text ≠ v.render

/-- What `atom_init` should read from the name alone and with any version behind it. -/
structure Read (packages : Lut) (category name : Identifier) : Prop where
  bare : ∃ atom, atomInit packages (category.text ++ '/' :: name.text) = .ok atom ∧
    atom.key = category.text ++ '/' :: name.text ∧ atom.version = none
  versioned : ∀ v : VersionText, ∃ atom,
    atomInit packages (category.text ++ '/' :: (name.text ++ '-' :: v.render)) = .ok atom ∧
      atom.key = category.text ++ '/' :: name.text ∧
      atom.version.bind AtomVersion.fullVersion = some v.render

theorem read_versioned (packages : Lut) (category name : Identifier) (v : VersionText) : ∃ atom,
    atomInit packages (category.text ++ '/' :: (name.text ++ '-' :: v.render)) = .ok atom ∧
      atom.key = category.text ++ '/' :: name.text ∧
      atom.version.bind AtomVersion.fullVersion = some v.render := by
  have hfull := v.init_render.1
  obtain ⟨atom, hinit, hkey, hversion⟩ :=
    atomInit_dash packages category.category (versionDash_append name.text v) hfull
  refine ⟨atom, hinit, hkey, ?_⟩
  rw [hversion]
  exact hfull

/-- A name is read back where its last words do not begin as a version would. -/
theorem read_iff (packages : Lut) (category name : Identifier) : Read packages category name ↔
    versionWord (name.more.map Subtype.val).reverse = none := by
  have hdash := versionDash_eq_none name.dash_notMem_first name.dash_notMem_more
  constructor
  · intro h
    obtain ⟨atom, hinit, -, hnone⟩ := h.bare
    have hversion := atomInit_version category.category hinit
    rw [hnone] at hversion
    exact hdash.mp (Option.map_eq_none_iff.mp hversion.symm)
  · intro h
    exact { bare := atomInit_bare packages category.category (hdash.mpr h)
            versioned := read_versioned packages category name }

end Identifier

/-- Without separators a version is a number with at most one letter. -/
theorem VersionText.render_plain {v : VersionText}
    (h : ∀ c ∈ v.render, isVersionSplit c = false) : ∃ l, v.render = v.first.1 ++ letterText l := by
  obtain ⟨first, more, letter, suffixes, revision⟩ := v
  cases revision with
  | some r => exact absurd (h '-' (by simp [render, revisionText])) (by decide)
  | none =>
    cases suffixes with
    | cons s rest => exact absurd (h '_' (by simp [render, body, suffixText])) (by decide)
    | nil =>
      cases more with
      | cons e more => exact absurd (h '.' (by simp [render, body, numericText])) (by decide)
      | nil => exact ⟨letter, by simp [render, body, numericText, revisionText]⟩

theorem VersionText.render_ne {text : List Char} (h : text.all (!isVersionSplit ·) = true)
    (hlong : 1 < (text.dropWhile Char.isDigit).length) (v : VersionText) : text ≠ v.render := by
  rintro rfl
  have hsplit : ∀ c ∈ v.render, isVersionSplit c = false := by simpa using h
  obtain ⟨l, hl⟩ := render_plain hsplit
  rw [hl, List.dropWhile_append_of_pos v.first.2.2] at hlong
  have hle := (List.dropWhile_sublist Char.isDigit (l := letterText l)).length_le
  have hone : (letterText l).length ≤ 1 := by cases l <;> simp [letterText]
  omega

/-- `media-fonts` -/
def mediaFonts : Identifier where
  first := ⟨"media".toList, by decide⟩
  more := [⟨"fonts".toList, by decide⟩]

/-- `font-100dpi` -/
def font100dpi : Identifier where
  first := ⟨"font".toList, by decide⟩
  more := [⟨"100dpi".toList, by decide⟩]

theorem font100dpi_noVersion : font100dpi.NoVersionInside := by
  intro part hpart v
  obtain ⟨hfirst, hmore⟩ : part.first = ⟨"100dpi".toList, by decide⟩ ∧ part.more = [] := by
    have hl := hpart.length_le
    have hnil : part.more = [] := by
      apply List.length_eq_zero_iff.mp
      simp only [font100dpi, List.length_cons, List.length_nil] at hl
      omega
    refine ⟨?_, hnil⟩
    have hm := hpart.subset (List.mem_cons_self ..)
    simpa [font100dpi] using hm
  have htext : part.text = "100dpi".toList := by
    rw [Identifier.text, hfirst, hmore]
    rfl
  rw [htext]
  exact VersionText.render_ne (by decide) (by decide) v

theorem font100dpi_not_read : ¬ ∀ (packages : Lut) (category name : Identifier),
    name.NoVersionInside → Identifier.Read packages category name := by
  intro h
  obtain ⟨atom, hinit, -, hnone⟩ := (h (Lut.lutNew 4) mediaFonts font100dpi font100dpi_noVersion).bare
  have hversion := atomInit_version mediaFonts.category hinit
  have hdash : versionDash font100dpi.text = some 4 := by decide
  rw [hnone, hdash] at hversion
  exact absurd hversion (by simp)

end AutoGentoo
