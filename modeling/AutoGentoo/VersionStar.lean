import AutoGentoo.AtomMatch
import AutoGentoo.RepositoryIndex
import AutoGentoo.VersionHole

/-! A star behind a dotted number. The comparison cuts it off its component, compares the
numbers, and looks at nothing that follows. -/

namespace AutoGentoo

open CString VersionPart

/-- No leading zero and at most nine digits. -/
abbrev Component := { d : Digits // ¬ Reference.LeadingZero d ∧ d.1.length ≤ 9 }

def Component.number (c : Component) : Nat := digitsVal c.1.1

/-- Dotted components, a letter behind the last one, suffixes with numbers, a revision. -/
structure ComponentVersion where
  first : Component
  more : List Component
  letter : Option Letter
  suffixes : List (SuffixWord × Digits)
  revision : Option Digits

def ComponentVersion.text (v : ComponentVersion) : VersionText where
  first := v.first.1
  more := v.more.map Subtype.val
  letter := v.letter
  suffixes := v.suffixes.map fun s => (s.1, s.2.optional)
  revision := v.revision

namespace VersionStar

/-- `P*` -/
def starText (first : Digits) (more : List Digits) : List Char := VersionText.numericText first more none ++ ['*']

def starNode (d : Digits) : VersionNode := { v := some (d.1 ++ ['*']), pre := .none }

def starNodes : Digits → List Digits → List VersionNode
  | d, [] => [starNode d]
  | d, e :: more => (numeric d none).toNode :: starNodes e more

theorem star_not_split {d : Digits} : ∀ c ∈ d.1 ++ ['*'], isVersionSplit c = false := by
  intro c hc
  rcases List.mem_append.mp hc with hd | hstar
  · exact VersionText.digit_not_split (d.2.2 c hd)
  · obtain rfl := List.mem_singleton.mp hstar
    rfl

theorem versionNode_star (d : Digits) : versionNode (d.1 ++ ['*']) = some (starNode d) := by
  obtain ⟨_ | ⟨c, s⟩, hne, hs⟩ := d
  · exact absurd rfl hne
  · have hc : c ∈ numerals := (mem_numerals_iff c).mpr (hs c List.mem_cons_self)
    have hpos : strpbrk (c :: s ++ ['*']) numerals = some 0 :=
      strpbrk_append (p := []) (List.forall_mem_nil _) hc
    rw [versionNode, hpos]
    rfl

theorem versionNodes_star (d : Digits) (more : List Digits) :
    versionNodes ((starText d more).splitOnP isVersionSplit) = (starNodes d more, true) := by
  induction more generalizing d with
  | nil =>
    have htext : starText d [] = d.1 ++ ['*'] := by
      rw [starText, VersionText.numericText, VersionText.letterText]
      simp
    rw [htext, List.splitOnP_eq_singleton star_not_split, versionNodes, versionNode_star]
    rfl
  | cons e more ih =>
    have htext : starText d (e :: more) = d.1 ++ '.' :: starText e more := by
      rw [starText, VersionText.numericText, List.append_assoc, List.cons_append]
      rfl
    have hdigits : ∀ c ∈ d.1, isVersionSplit c = false := fun c hc => VersionText.digit_not_split (d.2.2 c hc)
    have hnode : versionNode d.1 = some (numeric d none).toNode := by
      rw [← VersionText.versionNode_numeric, numeric_text_none]
    rw [htext, List.splitOnP_append_cons_of_forall_mem hdigits '.' (by decide), versionNodes, hnode, ih]
    rfl

theorem dash_not_mem (d : Digits) (more : List Digits) : '-' ∉ starText d more := by
  have hbody := VersionText.dash_not_mem_body
    { first := d, more := more, letter := none, suffixes := [], revision := none }
  rw [VersionText.body, List.flatMap_nil, List.append_nil] at hbody
  intro h
  rcases List.mem_append.mp h with h | h
  · exact hbody h
  · exact absurd h (by decide)

theorem init_star (d : Digits) (more : List Digits) :
    (atomVersionInit (starText d more)).fullVersion = some (starText d more) ∧
      (atomVersionInit (starText d more)).nodes = starNodes d more ∧
      (atomVersionInit (starText d more)).revision = 0 := by
  have hsplit : splitRevision (starText d more) = (0, starText d more) := by
    rw [splitRevision, strrchr_eq_none (dash_not_mem d more)]
  rw [atomVersionInit, hsplit]
  simp only [versionNodes_star, AtomVersion.nodes, if_true, and_true, true_and]
  cases more <;> rfl

theorem endChar_append {s : List Char} (hs : s ≠ []) (t : List Char) :
    endChar (s ++ t) s.length = endChar s s.length := by
  cases s with
  | nil => exact absurd rfl hs
  | cons c s =>
    rw [List.length_cons, endChar, endChar, List.getElem?_append_left (by simp)]

/-- The star does not count in the numbers. -/
theorem componentNumbers_star (d : Digits) (s : List Char) (l : Nat) :
    componentNumbers (d.1 ++ ['*']) s d.1.length l = componentNumbers d.1 s d.1.length l := by
  have hstar : strtol (d.1 ++ ['*']) = clampLong (digitsVal d.1) := by
    apply strtol_digits d.2.2
    rintro c ⟨⟩
    decide
  have hplain : strtol d.1 = clampLong (digitsVal d.1) := by
    have hnil := strtol_digits (t := []) d.2.2 (by simp)
    rwa [List.append_nil] at hnil
  have hpad : ∀ m, paddedComponent (d.1 ++ ['*']) d.1.length m = paddedComponent d.1 d.1.length m := by
    intro m
    rw [paddedComponent, paddedComponent, List.take_left, List.take_length]
  simp only [componentNumbers, plainNumber, VersionText.head?_append d.2.1, hstar, hplain, hpad]

theorem compareStep_star (d e : Digits) (l : Option Letter) (next : Bool) :
    compareStep (starNode d) (numeric e l).toNode false next =
      (numbers (numeric d none) (numeric e l)).map fun n => .ret (toI32 (n.1 - n.2)) := by
  have hd : endChar (d.1 ++ ['*']) d.1.length = some (d.1.getLast d.2.1) := by
    rw [endChar_append d.2.1, endChar_length d.2.1]
  have hdigit : aboveNine (d.1.getLast d.2.1) = false := digit_not_aboveNine (d.2.2 _ (List.getLast_mem d.2.1))
  have hskip : starSkip (d.1 ++ ['*']) (numeric e l).text = some (true, d.1.length, (numeric e l).text.length) := by
    have hend : endChar (d.1 ++ ['*']) (d.1 ++ ['*']).length = some '*' := by
      rw [endChar_length (by simp), List.getLast_append_singleton]
    rw [starSkip, hend]
    simp
  have hrule : letterRule (d.1 ++ ['*']) (numeric e l).text d.1.length (numeric e l).text.length false next =
      some none := by
    cases next <;> simp [letterRule, hd, hdigit]
  have hnumbers := componentNumbers_text (numeric d none) (numeric e l)
  rw [numeric_text_none] at hnumbers
  have hfinish : ∀ cmp cmpSuf, finishStep true cmp cmpSuf = .ret cmp := by
    intro cmp cmpSuf
    by_cases hcmp : cmp = 0
    · rw [hcmp]
      rfl
    · exact if_pos hcmp
  have hv : (starNode d).v = some (d.1 ++ ['*']) := rfl
  have hv' : (numeric e l).toNode.v = some (numeric e l).text := rfl
  have hpre : ¬ (starNode d).pre ≠ (numeric e l).toNode.pre := not_not.mpr rfl
  rw [compareStep, if_neg hpre, hv, hv']
  simp only [Option.bind_eq_bind, Option.bind_some, hskip, hrule, hd, endChar_text, componentNumbers_star,
    hnumbers, hfinish]
  cases numbers (numeric d none) (numeric e l) <;> rfl

theorem compareLoop_cons (revs : Int) (cf cs : VersionNode) (fs ss : List VersionNode) :
    compareLoop revs (cf :: fs) (cs :: ss) =
      (compareStep cf cs (!fs.isEmpty) (!ss.isEmpty)).bind (VersionText.resume (compareLoop revs fs ss)) := by
  rw [compareLoop]
  congr 1

section Components

variable (d e : Component)

theorem component_read : VersionPart.read (digitsVal d.1.1) = digitsVal d.1.1 :=
  read_eq (Reference.number_lt d.2.2)

/-- Next to a lettered 0 the number is padded, which does not make it 0. -/
theorem numbers_lettered_zero (c : Letter) (hzero : digitsVal e.1.1 = 0) :
    ∃ m, numbers (numeric d.1 none) (numeric e.1 (some c)) =
      some (((digitsVal d.1.1 * 10 ^ m : Nat) : Int), ((digitsVal e.1.1 : Nat) : Int)) := by
  have h0 : e.1.1.head? = some '0' := (Reference.head_zero_iff e.2.1).mpr hzero
  have hlength : e.1.1.length = 1 := not_not.mp fun h => e.2.1 ⟨h0, h⟩
  have hnot : ¬ (numeric e.1 (some c)).Plain := fun h => VersionText.lettered_plain_iff.mp h h0
  have hd := d.2.2
  have hmax : max (numeric d.1 none).text.length (numeric e.1 (some c)).text.length = max d.1.1.length 2 := by
    rw [numeric_text_none, numeric_length_some, hlength]
  refine ⟨max d.1.1.length 2 - d.1.1.length, ?_⟩
  rw [numbers_padded (fun h => hnot h.2) hmax, if_pos (by omega), numeric_padded_none, numeric_padded_some,
    component_read, read_eq (Reference.digitsVal_lt_pow hd _ (by omega))]

/-- The numbers read, up to zeros, and so equal just where the components are. -/
theorem numbers_equal_iff (l : Option Letter) :
    ∃ n, numbers (numeric d.1 none) (numeric e.1 l) = some n ∧ (n.1 = n.2 ↔ d.number = e.number) := by
  by_cases hzero : l.isSome = true ∧ digitsVal e.1.1 = 0
  · obtain ⟨c, rfl⟩ := Option.isSome_iff_exists.mp hzero.1
    obtain ⟨m, hm⟩ := numbers_lettered_zero d e c hzero.2
    have hpos : 10 ^ m ≠ 0 := by positivity
    refine ⟨_, hm, ?_⟩
    rw [Component.number, Component.number, hzero.2, Nat.cast_inj, Nat.mul_eq_zero]
    exact or_iff_left hpos
  · have hplain : (numeric d.1 none).Plain := Reference.numeric_plain_iff.mpr d.2.1
    have hplain' : (numeric e.1 l).Plain :=
      VersionText.component_plain (a := ⟨e.1, e.2.1⟩) fun hl hval => hzero ⟨hl, hval⟩
    refine ⟨_, if_pos ⟨hplain, hplain'⟩, ?_⟩
    rw [numeric_number, numeric_number, component_read, component_read]
    exact Nat.cast_inj

theorem step_component (xNext yNext : Bool) :
    ∃ n, step (numeric d.1 none) (numeric e.1 none) xNext yNext = some (finishStep false n 0) ∧
      (n = 0 ↔ d.number = e.number) := by
  have hpre : (numeric d.1 none).pre = (numeric e.1 none).pre := rfl
  refine ⟨_, step_plain hpre rfl rfl (Reference.numeric_plain_iff.mpr d.2.1)
    (Reference.numeric_plain_iff.mpr e.2.1) (Reference.number_lt d.2.2) (Reference.number_lt e.2.2) _ _, ?_⟩
  rw [numeric_number, numeric_number, Component.number, Component.number]
  omega

theorem step_star (l : Option Letter) (next : Bool) :
    ∃ r, compareStep (starNode d.1) (numeric e.1 l).toNode false next = some (.ret r) ∧
      (r = 0 ↔ d.number = e.number) := by
  obtain ⟨n, hn, hequal⟩ := numbers_equal_iff d e l
  refine ⟨toI32 (n.1 - n.2), ?_, (numbers_sub_eq_zero hn).trans hequal⟩
  rw [compareStep_star, hn, Option.map_some]

end Components

theorem resume_component {n : Int} {rest : Option Int} {q : Prop} (h : ∃ r, rest = some r ∧ (r = 0 ↔ q)) :
    ∃ r, (some (finishStep false n 0)).bind (VersionText.resume rest) = some r ∧ (r = 0 ↔ n = 0 ∧ q) := by
  obtain ⟨r, hr, hq⟩ := h
  by_cases hn : n = 0
  · refine ⟨r, ?_, hq.trans (and_iff_right hn).symm⟩
    rw [hn, ← hr]
    rfl
  · refine ⟨n, ?_, iff_of_false hn fun h => hn h.1⟩
    rw [VersionText.finish_ne hn, Option.bind_some, VersionText.resume]

theorem starNodes_cons (d : Digits) (more : List Digits) :
    ∃ node nodes, starNodes d more = node :: nodes ∧ node.pre = .none := by
  cases more with
  | nil => exact ⟨_, _, rfl, rfl⟩
  | cons e more => exact ⟨_, _, rfl, rfl⟩

/-- Behind the last component of the other version there is nothing, or a suffix. -/
theorem compareLoop_suffixes (revs : Int) (d : Digits) (more : List Digits)
    (suffixes : List (SuffixWord × Digits)) :
    ∃ r, compareLoop revs (starNodes d more)
        ((suffixes.map fun s => suffix (s.1, s.2.optional)).map toNode) = some r ∧ (r = 0 ↔ False) := by
  obtain ⟨node, nodes, hnodes, hpre⟩ := starNodes_cons d more
  rw [hnodes]
  cases suffixes with
  | nil => exact ⟨1, rfl, by decide⟩
  | cons s suffixes =>
    have hkind : (suffix (s.1, s.2.optional)).toNode.pre = s.1.kind := suffix_pre (s := (s.1, s.2.optional)) s.2.2.1
    have hne : node.pre ≠ (suffix (s.1, s.2.optional)).toNode.pre := by
      rw [hpre, hkind]
      cases s.1 <;> exact AtomPrefix.noConfusion
    have hval : node.pre.val - (suffix (s.1, s.2.optional)).toNode.pre.val ≠ 0 :=
      sub_ne_zero.mpr fun he => hne (AtomPrefix.val_injective he)
    rw [List.map_cons, List.map_cons, compareLoop_cons, compareStep, if_pos hne, Option.bind_some]
    exact ⟨_, rfl, iff_of_false hval id⟩

/-- By induction on `P`, whose last component ends the walk. -/
theorem compareLoop_star (revs : Int) (d : Component) (more : List Component) (e : Component)
    (rest : List Component) (l : Option Letter) (suffixes : List (SuffixWord × Digits)) :
    ∃ r, compareLoop revs (starNodes d.1 (more.map Subtype.val))
        ((VersionText.numericParts e.1 (rest.map Subtype.val) l ++
          suffixes.map fun s => suffix (s.1, s.2.optional)).map toNode) = some r ∧
      (r = 0 ↔ (d :: more).map Component.number <+: (e :: rest).map Component.number) := by
  induction more generalizing d e rest with
  | nil =>
    obtain ⟨r, hr, hequal⟩ := step_star d e (if rest.map Subtype.val = [] then l else none)
      (!((VersionText.numericBehind l (rest.map Subtype.val) ++
        suffixes.map fun s => suffix (s.1, s.2.optional)).map toNode).isEmpty)
    refine ⟨r, ?_, ?_⟩
    · rw [VersionText.numericParts_behind, List.map_nil, starNodes, List.cons_append, List.map_cons,
        compareLoop_cons, List.isEmpty_nil, Bool.not_true, hr, Option.bind_some, VersionText.resume]
    · rw [hequal, List.map_cons, List.map_cons, List.cons_prefix_cons, List.map_nil]
      exact (and_iff_left (List.nil_prefix)).symm
  | cons d' more ih =>
    have hnext : (!(starNodes d'.1 (more.map Subtype.val)).isEmpty) = true := by
      obtain ⟨node, nodes, hnodes, -⟩ := starNodes_cons d'.1 (more.map Subtype.val)
      rw [hnodes]
      rfl
    have hbegins : (d :: d' :: more).map Component.number <+: (e :: rest).map Component.number ↔
        d.number = e.number ∧ (d' :: more).map Component.number <+: rest.map Component.number :=
      List.cons_prefix_cons
    rw [hbegins, List.map_cons, starNodes]
    cases rest with
    | nil =>
      have hfalse : (d' :: more).map Component.number <+: ([] : List Component).map Component.number ↔ False := by
        simp
      rw [hfalse, List.map_nil, VersionText.numericParts, List.cons_append, List.nil_append, List.map_cons,
        compareLoop_cons, compareStep_toNode, hnext]
      cases l with
      | none =>
        obtain ⟨n, hn, hequal⟩ := step_component d e true
          (!((suffixes.map fun s => suffix (s.1, s.2.optional)).map toNode).isEmpty)
        rw [hn, ← hequal]
        exact resume_component (compareLoop_suffixes revs d'.1 (more.map Subtype.val) suffixes)
      | some c =>
        have hover : Overtaken (numeric e.1 (some c)) true := ⟨rfl, rfl⟩
        have hpre : (numeric d.1 none).pre = (numeric e.1 (some c)).pre := rfl
        rw [step_overtakes hpre (not_overtaken rfl _) hover, Option.bind_some, VersionText.resume]
        exact ⟨1, rfl, iff_of_false (by decide) fun h => h.2⟩
    | cons e' rest =>
      rw [List.map_cons, VersionText.numericParts, List.cons_append, List.map_cons, compareLoop_cons,
        compareStep_toNode]
      obtain ⟨n, hn, hequal⟩ := step_component d e (!(starNodes d'.1 (more.map Subtype.val)).isEmpty)
        (!((VersionText.numericParts e'.1 (rest.map Subtype.val) l ++
          suffixes.map fun s => suffix (s.1, s.2.optional)).map toNode).isEmpty)
      rw [hn, ← hequal]
      exact resume_component (ih d' e' rest)

end VersionStar

open VersionStar

theorem versionDash_star (name : List Char) (d : Digits) (more : List Digits) :
    versionDash (name ++ '-' :: starText d more) = some name.length := by
  obtain ⟨c, rest, hbody, hc⟩ := VersionText.body_head
    { first := d, more := more, letter := none, suffixes := [], revision := none }
  rw [VersionText.body, List.flatMap_nil, List.append_nil] at hbody
  apply versionDash_last (strrchr_append (dash_not_mem d more))
  rw [digitAt, get_behind, starText, hbody]
  exact hc

theorem component_parts (v : ComponentVersion) :
    v.text.parts = VersionText.numericParts v.first.1 (v.more.map Subtype.val) v.letter ++
      v.suffixes.map fun s => suffix (s.1, s.2.optional) := by
  rw [VersionText.parts, ComponentVersion.text, List.map_map]
  rfl

/-- The pattern selects the versions that begin with its components. -/
theorem star_matches_iff (packages packages' : Lut) (addr : Nat) (category : { s : List Char // '/' ∉ s })
    (name path : List Char) (first : Component) (more : List Component) (v : ComponentVersion)
    (d : Decoration) :
    ∃ atom ebuild flags, atomInit packages
        (category.1 ++ '/' :: (name ++ '-' :: starText first.1 (more.map Subtype.val))) = .ok atom ∧
      ebuildInit packages' addr
        { category := category.1
          nameAndVersion := name ++ '-' :: v.text.render
          ebuildFound := true
          cacheFile := some path } = some (.ok (ebuild, flags)) ∧
      ∃ b, atomMatches (atom.decorate { d with range := .e }) ebuild = some b ∧
        (b = true ↔ (first :: more).map Component.number <+: (v.first :: v.more).map Component.number) := by
  obtain ⟨hfull, hnodes, hrevision⟩ := init_star first.1 (more.map Subtype.val)
  obtain ⟨-, hnodes', hrevision'⟩ := v.text.init_render
  obtain ⟨atom, hatom, hkey, hversion⟩ :=
    atomInit_dash packages category (versionDash_star name first.1 (more.map Subtype.val)) hfull
  let file : RepoFile := ⟨category.1, name ++ '-' :: v.text.render, true, some path⟩
  have hnamed : file.Named ⟨category, name, v.text⟩ := ⟨rfl, rfl⟩
  have hmade : ∃ made, ebuildInit packages' addr file = some (.ok made) :=
    ebuildInit_some hnamed rfl (Option.some_ne_none path)
  obtain ⟨⟨ebuild, flags⟩, hebuild⟩ := hmade
  obtain ⟨horigin, hkey', -⟩ := ebuildInit_named hnamed hebuild
  have hversion' : ebuild.version = some (atomVersionInit v.text.render) := congrArg Prod.snd horigin
  obtain ⟨r, hr, hbegins⟩ := compareLoop_star (toI32 (0 - v.text.revisionVal)) first more v.first v.more
    v.letter v.suffixes
  have hcompare : atomVersionCompare atom.version ebuild.version = some r := by
    rw [hversion, hversion', atomVersionCompare, hnodes, hnodes', hrevision, hrevision', component_parts, hr]
  have hkeys : (atom.decorate { d with range := .e }).key = ebuild.packageKey := hkey.trans hkey'.symm
  refine ⟨atom, ebuild, flags, hatom, hebuild, AtomRange.accepts .e r, ?_, ?_⟩
  · rw [atomMatches, if_neg (not_not.mpr hkeys)]
    exact congrArg (Option.map _) hcompare
  · rw [accepts_iff, ← hbegins]
    rfl

end AutoGentoo
