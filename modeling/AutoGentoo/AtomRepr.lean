import AutoGentoo.AtomNames
import AutoGentoo.DependRead

/-! `PyAtom_repr` against the parser: what is printed, and what is read from it. -/

namespace AutoGentoo

open CString

/-- The NUL that ends a string. -/
def nul : Char := Char.ofNat 0

/-- The bytes of `prefix`. -/
def pyAtomPrefix (range : AtomRange) : List Char :=
  if range = .all then [nul, nul, nul]
  else if range.has AtomRange.maskG then ['>', nul, nul]
  else if range.has AtomRange.maskL then ['<', nul, nul]
  else if range.has AtomRange.maskE then [nul, '=', nul]
  else [nul, nul, nul]

/-- A buffer as `%s` prints it. -/
def printed (buffer : List Char) : List Char := buffer.takeWhile (· ≠ nul)

/-- `none` where a NULL text would be printed. -/
def pyAtomRepr (self : Atom) : Option (List Char) :=
  let front := printed (pyAtomPrefix self.range) ++ (self.category ++ '/' :: self.name)
  match self.version with
  | none => some front
  | some version => version.fullVersion.map fun full => front ++ '-' :: full

def VersionSign.text : VersionSign → List Char
  | greaterEqual => ">=".toList | lessEqual => "<=".toList | equal => ['='] | greater => ['>']
  | tilde => ['~'] | less => ['<'] | nothing => []

/-- The operator that is read from what is printed for one. -/
def VersionSign.kept : VersionSign → VersionSign
  | greaterEqual | greater => .greater
  | lessEqual | less => .less
  | equal | tilde | nothing => .nothing

/-- An operator, a category, a name and a version, which is there if an operator is. -/
structure SignedAtom where
  sign : VersionSign
  category : Identifier
  name : Identifier
  version : Option VersionText
  versioned : sign ≠ .nothing → version ≠ none

namespace SignedAtom

def nameIdent (self : SignedAtom) : List Char :=
  self.name.text ++ (self.version.map fun v => '-' :: v.render).getD []

/-- The text of ATOM. -/
def token (self : SignedAtom) : List Char := self.category.text ++ '/' :: self.nameIdent

def text (self : SignedAtom) : List Char := self.sign.text ++ self.token

end SignedAtom

/-- An ATOM behind an operator, with nothing else. -/
def signedExpr (sign : VersionSign) (token : Atom) : AtomExpr where
  bangs := .nothing
  sign := sign
  token := token
  slot := none
  repository := none
  flags := none

section Parser

variable (packages : Lut) (parse : List Char → Option Atom)

/-- What the generated parser is relied on for: an operator in front of an ATOM is reduced by
its rule. -/
def ReadsSigned : Prop := ∀ e : SignedAtom,
  parse e.text = (atomInit packages e.token).toOption.map fun token => (signedExpr e.sign token).reduce

/-- What repr prints is read as an atom with the same key, version and range. -/
def RoundTrips (e : SignedAtom) : Prop := ∀ atom, parse e.text = some atom →
  ∃ out again, pyAtomRepr atom = some out ∧ parse out = some again ∧
    again.key = atom.key ∧ again.version = atom.version ∧ again.range = atom.range

/-- Two atoms that print the same have the same key, version and range. -/
def PrintDistinct (e e' : SignedAtom) : Prop := ∀ atom atom',
  parse e.text = some atom → parse e'.text = some atom' → pyAtomRepr atom = pyAtomRepr atom' →
    atom.key = atom'.key ∧ atom.version = atom'.version ∧ atom.range = atom'.range

end Parser

theorem strrchr_get {s : List Char} {c : Char} {i : Nat} (h : strrchr s c = some i) : s[i]? = some c := by
  induction s generalizing i with
  | nil => exact absurd h (by simp [strrchr])
  | cons x s ih =>
    rw [strrchr] at h
    cases hs : strrchr s c with
    | some j =>
      rw [hs] at h
      obtain rfl := Option.some.inj h
      simpa using ih hs
    | none =>
      rw [hs] at h
      by_cases hx : x = c
      · rw [if_pos hx] at h
        obtain rfl := Option.some.inj h
        simp [hx]
      · simp [hx] at h

theorem versionDash_get {s : List Char} {i : Nat} (h : versionDash s = some i) : s[i]? = some '-' := by
  rw [versionDash] at h
  split at h
  · exact absurd h (by simp)
  · next last hlast =>
    split at h
    · obtain rfl := Option.some.inj h
      exact strrchr_get hlast
    · split at h
      · split at h
        · next second hsecond =>
          split at h
          · obtain rfl := Option.some.inj h
            have hget := strrchr_get hsecond
            rw [List.getElem?_take] at hget
            split at hget
            · exact hget
            · exact absurd hget (by simp)
          · exact absurd h (by simp)
        · exact absurd h (by simp)
      · exact absurd h (by simp)

theorem take_drop_get {s : List Char} {i : Nat} {c : Char} (h : s[i]? = some c) :
    s.take i ++ c :: s.drop (i + 1) = s := by
  obtain ⟨hi, hget⟩ := List.getElem?_eq_some_iff.mp h
  rw [← hget, ← List.drop_eq_getElem_cons hi, List.take_append_drop]

theorem fullVersion_eq {input text : List Char} (h : (atomVersionInit input).fullVersion = some text) :
    text = input := by
  have hif : (if (versionNodes ((splitRevision input).2.splitOnP isVersionSplit)).2 then some input
      else none) = some text := h
  split at hif
  · exact (Option.some.inj hif).symm
  · exact absurd hif (by simp)

theorem atomInit_ok {packages : Lut} (category : { s : List Char // '/' ∉ s }) {ident : List Char}
    {token : Atom} (h : atomInit packages (category.1 ++ '/' :: ident) = .ok token) :
    token.category = category.1 ∧ token.name = ((versionDash ident).map (ident.take ·)).getD ident ∧
      ∀ v, token.version = some v → v.fullVersion ≠ none := by
  simp only [atomInit, strchr_append category.2, List.take_left, drop_behind] at h
  split at h
  · exact absurd h (by simp)
  · next hash hsome =>
    rw [← Except.ok.inj h]
    refine ⟨rfl, ?_, ?_⟩
    · cases versionDash ident <;> rfl
    · intro v hv hfull
      exact absurd (hsome.symm.trans (pyAtomHash_eq_none.mpr ⟨v, hv, hfull⟩)) (by simp)

theorem printed_pyAtomPrefix (sign : VersionSign) : printed (pyAtomPrefix sign.range) = sign.kept.text := by
  cases sign <;> decide

/-- Behind the operator the text of the token is printed again. -/
theorem pyAtomRepr_signed {packages : Lut} (category : { s : List Char // '/' ∉ s }) {ident : List Char}
    {token : Atom} (h : atomInit packages (category.1 ++ '/' :: ident) = .ok token) (sign : VersionSign) :
    pyAtomRepr (signedExpr sign token).reduce = some (sign.kept.text ++ (category.1 ++ '/' :: ident)) := by
  obtain ⟨hcategory, hname, hfull⟩ := atomInit_ok category h
  have hversion := atomInit_version category h
  rw [AtomExpr.reduce_eq, pyAtomRepr]
  simp only [signedExpr, AtomExpr.value, printed_pyAtomPrefix, hcategory, hname]
  cases hdash : versionDash ident with
  | none =>
    rw [hdash] at hversion
    rw [hversion]
    rfl
  | some i =>
    rw [hdash] at hversion
    rw [hversion]
    obtain ⟨full, hf⟩ := Option.ne_none_iff_exists'.mp (hfull _ hversion)
    obtain rfl := fullVersion_eq hf
    have hjoin := take_drop_get (versionDash_get hdash)
    simp only [Option.map_some, Option.getD_some, hf, List.append_assoc, List.cons_append, hjoin]

theorem signedExpr_reduce (sign : VersionSign) (token : Atom) :
    (signedExpr sign token).reduce.key = token.key ∧ (signedExpr sign token).reduce.version = token.version ∧
      (signedExpr sign token).reduce.range = sign.range := by
  rw [AtomExpr.reduce_eq]
  exact ⟨rfl, rfl, rfl⟩

theorem VersionSign.kept_nothing {sign : VersionSign} (h : sign = .nothing) : sign.kept = .nothing := by
  rw [h]
  rfl

theorem VersionSign.kept_range_iff (sign : VersionSign) :
    sign.kept.range = sign.range ↔ sign = .greater ∨ sign = .less ∨ sign = .nothing := by
  cases sign <;> decide

theorem VersionSign.range_inj {sign sign' : VersionSign} (h : sign.range = sign'.range) : sign = sign' := by
  cases sign <;> cases sign' <;> first | rfl | exact absurd h (by decide)

namespace SignedAtom

theorem kept_versioned (e : SignedAtom) (h : e.sign.kept ≠ .nothing) : e.version ≠ none :=
  e.versioned fun hs => h (VersionSign.kept_nothing hs)

/-- With the operator that is printed. -/
def kept (e : SignedAtom) : SignedAtom := { e with sign := e.sign.kept, versioned := e.kept_versioned }

theorem token_ok (packages : Lut) (e : SignedAtom) (h : e.sign ≠ .nothing) :
    ∃ token, atomInit packages e.token = .ok token := by
  obtain ⟨v, hv⟩ := Option.ne_none_iff_exists'.mp (e.versioned h)
  obtain ⟨token, hinit, -⟩ :=
    atomInit_dash packages e.category.category (versionDash_append e.name.text v) v.init_render.1
  refine ⟨token, ?_⟩
  rw [SignedAtom.token, nameIdent, hv]
  exact hinit

theorem token_head (e : SignedAtom) : ∃ c rest, e.token = c :: rest ∧ c ≠ '>' ∧ c ≠ '<' ∧ c ≠ '=' ∧ c ≠ '~' := by
  rcases hfirst : e.category.first with ⟨w, hw⟩
  cases w with
  | nil => exact absurd hw (by simp [identWord])
  | cons c s =>
    have htext : ∃ rest, e.token = c :: rest := by simp [token, Identifier.text, dashed, hfirst]
    obtain ⟨rest, hrest⟩ := htext
    have hne : ∀ d, (d.isAlphanum || d == '_') = false → c ≠ d := by
      rintro d hd rfl
      simp [identWord, hd] at hw
    exact ⟨c, rest, hrest, hne '>' (by decide), hne '<' (by decide), hne '=' (by decide), hne '~' (by decide)⟩

end SignedAtom

section Parser

variable {packages : Lut} {parse : List Char → Option Atom}

theorem parse_some_iff (hreads : ReadsSigned packages parse) {e : SignedAtom} {atom : Atom} :
    parse e.text = some atom ↔ ∃ token, atomInit packages e.token = .ok token ∧
      (signedExpr e.sign token).reduce = atom := by
  rw [hreads e]
  cases atomInit packages e.token <;> simp [Except.toOption]

theorem roundTrips_iff (hreads : ReadsSigned packages parse) (e : SignedAtom) : RoundTrips parse e ↔
    ∀ token, atomInit packages e.token = .ok token → e.sign.kept.range = e.sign.range := by
  constructor
  · intro h token hinit
    obtain ⟨out, again, hout, hagain, -, -, hrange⟩ := h _ ((parse_some_iff hreads).mpr ⟨token, hinit, rfl⟩)
    rw [pyAtomRepr_signed e.category.category hinit] at hout
    obtain rfl := Option.some.inj hout
    have hread : parse e.kept.text = some again := hagain
    obtain ⟨token', hinit', rfl⟩ := (parse_some_iff hreads).mp hread
    rw [(signedExpr_reduce _ _).2.2, (signedExpr_reduce _ _).2.2] at hrange
    exact hrange
  · intro h atom hatom
    obtain ⟨token, hinit, rfl⟩ := (parse_some_iff hreads).mp hatom
    have hkept : parse e.kept.text = some (signedExpr e.sign.kept token).reduce :=
      (parse_some_iff hreads).mpr ⟨token, hinit, rfl⟩
    obtain ⟨hkey, hversion, hrange⟩ := signedExpr_reduce e.sign token
    obtain ⟨hkey', hversion', hrange'⟩ := signedExpr_reduce e.sign.kept token
    exact ⟨_, _, pyAtomRepr_signed e.category.category hinit e.sign, hkept, hkey'.trans hkey.symm,
      hversion'.trans hversion.symm, hrange'.trans ((h token hinit).trans hrange.symm)⟩

theorem kept_text_split (e : SignedAtom) :
    (e.sign.kept.text ++ e.token).takeWhile (fun c => c == '>' || c == '<') = e.sign.kept.text ∧
      (e.sign.kept.text ++ e.token).dropWhile (fun c => c == '>' || c == '<') = e.token := by
  obtain ⟨c, rest, hc, hgt, hlt, -⟩ := e.token_head
  rw [hc]
  cases e.sign <;> simp [VersionSign.kept, VersionSign.text, hgt, hlt]

theorem kept_text_injective {sign sign' : VersionSign} (h : sign.kept.text = sign'.kept.text) :
    sign.kept = sign'.kept := by
  cases sign <;> cases sign' <;> first | rfl | exact absurd h (by decide)

/-- What is printed determines the operator that is read from it and the token. -/
theorem kept_text_inj {e e' : SignedAtom} (h : e.sign.kept.text ++ e.token = e'.sign.kept.text ++ e'.token) :
    e.sign.kept = e'.sign.kept ∧ e.token = e'.token := by
  obtain ⟨htext, htoken⟩ := kept_text_split e
  obtain ⟨htext', htoken'⟩ := kept_text_split e'
  rw [h] at htext htoken
  exact ⟨kept_text_injective (htext.symm.trans htext'), htoken.symm.trans htoken'⟩

theorem printDistinct_iff (hreads : ReadsSigned packages parse) (e e' : SignedAtom) :
    PrintDistinct parse e e' ↔ (e.token = e'.token → e.sign.kept = e'.sign.kept → e.sign = e'.sign) := by
  constructor
  · intro h htoken hkept
    by_contra hne
    have hinit : ∃ token, atomInit packages e.token = .ok token := by
      by_cases hs : e.sign = .nothing
      · rw [htoken]
        exact e'.token_ok packages fun hs' => hne (hs.trans hs'.symm)
      · exact e.token_ok packages hs
    obtain ⟨token, hinit⟩ := hinit
    have hinit' : atomInit packages e'.token = .ok token := htoken ▸ hinit
    have hrepr : pyAtomRepr (signedExpr e.sign token).reduce = pyAtomRepr (signedExpr e'.sign token).reduce := by
      have hfirst := pyAtomRepr_signed e.category.category hinit e.sign
      have hsecond := pyAtomRepr_signed e'.category.category hinit' e'.sign
      rw [hfirst, hsecond, hkept]
      exact congrArg (fun t => some (e'.sign.kept.text ++ t)) htoken
    obtain ⟨-, -, hrange⟩ := h _ _ ((parse_some_iff hreads).mpr ⟨token, hinit, rfl⟩)
      ((parse_some_iff hreads).mpr ⟨token, hinit', rfl⟩) hrepr
    rw [(signedExpr_reduce _ _).2.2, (signedExpr_reduce _ _).2.2] at hrange
    exact hne (VersionSign.range_inj hrange)
  · intro h atom atom' hatom hatom' hrepr
    obtain ⟨token, hinit, rfl⟩ := (parse_some_iff hreads).mp hatom
    obtain ⟨token', hinit', rfl⟩ := (parse_some_iff hreads).mp hatom'
    have hfirst := pyAtomRepr_signed e.category.category hinit e.sign
    have hsecond := pyAtomRepr_signed e'.category.category hinit' e'.sign
    rw [hfirst, hsecond] at hrepr
    obtain ⟨hkept, htoken⟩ : e.sign.kept = e'.sign.kept ∧ e.token = e'.token :=
      kept_text_inj (Option.some.inj hrepr)
    rw [htoken] at hinit
    obtain rfl := Except.ok.inj (hinit.symm.trans hinit')
    rw [h htoken hkept]
    exact ⟨rfl, rfl, rfl⟩

theorem repr_parse_iff (hreads : ReadsSigned packages parse) (e e' : SignedAtom) :
    (RoundTrips parse e ↔ e.sign = .greater ∨ e.sign = .less ∨ e.sign = .nothing) ∧
      (PrintDistinct parse e e' ↔
        (e.token = e'.token → e.sign.kept = e'.sign.kept → e.sign = e'.sign)) := by
  refine ⟨?_, printDistinct_iff hreads e e'⟩
  rw [roundTrips_iff hreads, ← VersionSign.kept_range_iff]
  constructor
  · intro h
    by_cases hs : e.sign = .nothing
    · rw [hs]
      rfl
    · obtain ⟨token, hinit⟩ := e.token_ok packages hs
      exact h token hinit
  · exact fun h _ _ => h

end Parser

/-- The operator in front of a text, and what is behind it. -/
def readSign : List Char → VersionSign × List Char
  | '>' :: '=' :: s => (.greaterEqual, s)
  | '<' :: '=' :: s => (.lessEqual, s)
  | '=' :: s => (.equal, s)
  | '>' :: s => (.greater, s)
  | '~' :: s => (.tilde, s)
  | '<' :: s => (.less, s)
  | s => (.nothing, s)

/-- A parser for these texts. -/
def parseSigned (packages : Lut) (input : List Char) : Option Atom :=
  (atomInit packages (readSign input).2).toOption.map fun token =>
    (signedExpr (readSign input).1 token).reduce

theorem readSign_text (e : SignedAtom) : readSign e.text = (e.sign, e.token) := by
  obtain ⟨c, rest, hc, hgt, hlt, heq, htilde⟩ := e.token_head
  rw [SignedAtom.text, hc]
  cases e.sign with
  | greaterEqual | lessEqual | equal | tilde => rfl
  | greater | less => simp [VersionSign.text, readSign, heq]
  | nothing => simp [VersionSign.text, readSign, hgt, hlt, heq, htilde]

theorem parseSigned_reads (packages : Lut) : ReadsSigned packages (parseSigned packages) := by
  intro e
  rw [parseSigned, readSign_text]

theorem identWord_a : identWord ['a'] = true := by decide

theorem identWord_b : identWord ['b'] = true := by decide

/-- `a/b-1` behind an operator. -/
def oneBehind (sign : VersionSign) : SignedAtom where
  sign := sign
  category := { first := ⟨['a'], identWord_a⟩, more := [] }
  name := { first := ⟨['b'], identWord_b⟩, more := [] }
  version := some { first := Digits.of "1", more := [], letter := none, suffixes := [], revision := none }
  versioned := fun _ => Option.some_ne_none _

theorem repr_parse_greater : (RoundTrips (parseSigned (Lut.lutNew 4)) (oneBehind .greater) ↔
      VersionSign.greater = .greater ∨ VersionSign.greater = .less ∨ VersionSign.greater = .nothing) ∧
    (PrintDistinct (parseSigned (Lut.lutNew 4)) (oneBehind .greater) (oneBehind .less) ↔
      ((oneBehind .greater).token = (oneBehind .less).token →
        VersionSign.greater.kept = VersionSign.less.kept → VersionSign.greater = .less)) :=
  repr_parse_iff (parseSigned_reads (Lut.lutNew 4)) (oneBehind .greater) (oneBehind .less)

theorem equal_not_printed : ¬ ∀ (packages : Lut) (parse : List Char → Option Atom),
    ReadsSigned packages parse → ∀ e, RoundTrips parse e := by
  intro h
  have hround := h (Lut.lutNew 4) _ (parseSigned_reads (Lut.lutNew 4)) (oneBehind .equal)
  obtain ⟨token, hinit⟩ := (oneBehind .equal).token_ok (Lut.lutNew 4) (by decide)
  exact absurd ((roundTrips_iff (parseSigned_reads (Lut.lutNew 4)) _).mp hround token hinit) (by decide)

end AutoGentoo
