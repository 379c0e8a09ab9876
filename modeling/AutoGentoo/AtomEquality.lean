import AutoGentoo.AtomMatch
import AutoGentoo.PortageIds

/-! Equality, hash and matching of atoms: `PyAtom_richcompare` looks at the key, the
hash is the one of `atom_init`, and `atom_matches` looks at the version and the range. -/

namespace AutoGentoo

open CString VersionText

def strcmp : List Char → List Char → Int
  | [], [] => 0
  | [], _ :: _ => -1
  | _ :: _, [] => 1
  | c :: s, d :: t => if c = d then strcmp s t else (c.toNat : Int) - d.toNat

inductive RichOp
  | lt | le | eq | ne | gt | ge
  deriving DecidableEq, Repr

/-- `Py_RETURN_RICHCOMPARE` against 0 -/
def RichOp.holds (compare : Int) : RichOp → Bool
  | lt => compare < 0
  | le => compare ≤ 0
  | eq => compare = 0
  | ne => compare ≠ 0
  | gt => 0 < compare
  | ge => 0 ≤ compare

def pyAtomRichcompare (self other : Atom) (op : RichOp) : Bool := op.holds (strcmp self.key other.key)

/-- `PyAtom_hash`, with -1 in the cache as `2 ^ 64 - 1`. -/
def atomHash (self : Atom) : Option Nat :=
  if self.cachedHash ≠ 2 ^ 64 - 1 then some self.cachedHash else pyAtomHash self

theorem strcmp_eq_zero_iff {s t : List Char} : strcmp s t = 0 ↔ s = t := by
  induction s generalizing t with
  | nil => cases t <;> simp [strcmp]
  | cons c s ih =>
    cases t with
    | nil => simp [strcmp]
    | cons d t =>
      rw [strcmp, List.cons.injEq]
      split_ifs with hcd
      · rw [ih]
        exact (and_iff_right hcd).symm
      · have hne : c.toNat ≠ d.toNat := fun he => hcd (Char.toNat_inj.mp he)
        have hsub : (c.toNat : Int) - d.toNat ≠ 0 := by omega
        exact iff_of_false hsub fun h => hcd h.1

namespace Atom

/-- What the parser makes of a text: `atom_init`, and then the fields of the grammar. -/
def Made (self : Atom) : Prop :=
  ∃ packages text atom decoration, atomInit packages text = .ok atom ∧ self = atom.decorate decoration

/-- Equal atoms have one hash and match the same ebuilds. -/
def Coherent (a b : Atom) : Prop :=
  pyAtomRichcompare a b .eq = true → atomHash a = atomHash b ∧ ∀ e, atomMatches a e = atomMatches b e

theorem richcompare_eq_iff (a b : Atom) : pyAtomRichcompare a b .eq = true ↔ a.key = b.key := by
  rw [pyAtomRichcompare, RichOp.holds, decide_eq_true_eq, strcmp_eq_zero_iff]

/-- `atom_init` hashes the id and the version, the other fields being as it sets them. -/
def initial (id : Nat) (version : Option AtomVersion) : Atom where
  id := id
  idFlag := 0
  cachedHash := 0
  category := []
  name := []
  key := []
  repository := none
  slot := none
  subSlot := none
  slotOpts := .ignore
  range := .all
  blocks := .none
  version := version
  useflags := []

theorem Made.hash {a : Atom} (h : a.Made) : pyAtomHash (initial a.id a.version) = some a.cachedHash := by
  obtain ⟨packages, text, atom, decoration, hinit, rfl⟩ := h
  rw [atomInit_eq] at hinit
  cases hfields : atomFields text with
  | none => simp [hfields] at hinit
  | some fields =>
    simp only [hfields, hashed] at hinit
    split at hinit
    · exact absurd hinit (by simp)
    · next hash hhash =>
      obtain rfl := Except.ok.inj hinit
      obtain ⟨i, -, rfl⟩ := Option.map_eq_some_iff.mp hfields
      exact hhash

theorem Made.atomHash {a : Atom} (h : a.Made) : AutoGentoo.atomHash a = some a.cachedHash := by
  have hlt : a.cachedHash < 2 ^ 32 := by
    have hhash := h.hash
    rw [pyAtomHash] at hhash
    split at hhash
    · obtain ⟨versionHash, -, hhash⟩ := Option.bind_eq_some_iff.mp hhash
      rw [← Option.some.inj hhash]
      exact hashBytes_lt _
    · obtain ⟨versionHash, -, hhash⟩ := Option.bind_eq_some_iff.mp hhash
      rw [← Option.some.inj hhash]
      exact hashBytes_lt _
  rw [AutoGentoo.atomHash, if_pos]
  omega

/-- The two have one id, one version and operators that let the same results pass: where
there is no version every ebuild is newer. -/
def SameRequirement (a b : Atom) : Prop :=
  a.id = b.id ∧ a.version = b.version ∧
    a.range.has AtomRange.maskG = b.range.has AtomRange.maskG ∧
      (a.version ≠ none → a.range.has AtomRange.maskE = b.range.has AtomRange.maskE ∧
        a.range.has AtomRange.maskL = b.range.has AtomRange.maskL)

theorem coherent_of_key_ne {a b : Atom} (h : a.key ≠ b.key) : Coherent a b := by
  intro heq
  exact absurd ((richcompare_eq_iff a b).mp heq) h

theorem SameRequirement.coherent {a b : Atom} (ha : a.Made) (hb : b.Made) (h : SameRequirement a b) :
    Coherent a b := by
  obtain ⟨hid, hversion, hg, hel⟩ := h
  intro heq
  have hkey := (richcompare_eq_iff a b).mp heq
  constructor
  · have hhash := ha.hash
    rw [hid, hversion, hb.hash, Option.some.injEq] at hhash
    rw [ha.atomHash, hb.atomHash, hhash]
  · intro e
    rw [atomMatches, atomMatches, hkey, hversion]
    split_ifs
    · rfl
    · cases hv : b.version with
      | none =>
        cases e.version with
        | none => rfl
        | some v => exact congrArg some hg
      | some v =>
        obtain ⟨he, hl⟩ := hel (by rw [hversion, hv]; simp)
        rw [he, hl, hg]

theorem exists_digits (n : Nat) : ∃ d : Digits, digitsVal d.1 = n := by
  induction n using Nat.strong_induction_on with
  | h n ih =>
    have hchar : ∀ k < 10, (Char.ofNat (48 + k)).isDigit = true ∧ digitVal (Char.ofNat (48 + k)) = k := by
      decide
    obtain ⟨hdigit, hval⟩ := hchar (n % 10) (Nat.mod_lt n (by norm_num))
    by_cases hn : n < 10
    · refine ⟨⟨[Char.ofNat (48 + n % 10)], by simp, by simpa using hdigit⟩, ?_⟩
      simp only [digitsVal, List.foldl_cons, List.foldl_nil, hval]
      omega
    · obtain ⟨d, hd⟩ := ih (n / 10) (by omega)
      refine ⟨⟨d.1 ++ [Char.ofNat (48 + n % 10)], by simp, fun c hc => ?_⟩, ?_⟩
      · rcases List.mem_append.mp hc with hc | hc
        · exact d.2.2 c hc
        · rw [List.mem_singleton.mp hc]
          exact hdigit
      · rw [digitsVal_append, hd]
        simp only [List.foldl_cons, List.foldl_nil, hval]
        omega

/-- The same version in another revision, which compares as any wanted. -/
theorem exists_revision {t : VersionText} (ht : SelfComparable t.parts) {d : Int} (hlow : -2 ^ 31 ≤ d)
    (hhigh : d < 2 ^ 31) : ∃ v, compare t v = some d := by
  obtain ⟨r, hr⟩ := exists_digits ((t.revisionVal - d) % 2 ^ 32).toNat
  let v : VersionText := { t with revision := some r }
  have hval : v.revisionVal = toI32 (t.revisionVal - d) := by
    have hclamp : clampLong (digitsVal r.1) = (t.revisionVal - d) % 2 ^ 32 := by
      rw [hr, clampLong]
      omega
    have hv : v.revisionVal = toI32 (clampLong (digitsVal r.1)) := rfl
    rw [hv, hclamp]
    exact Int.emod_bmod (t.revisionVal - d) (2 ^ 32)
  have hsub : toI32 (t.revisionVal - v.revisionVal) = d := by
    rw [hval]
    have hbmod : toI32 (t.revisionVal - toI32 (t.revisionVal - d)) = toI32 (t.revisionVal - (t.revisionVal - d)) :=
      Int.sub_bmod_bmod
    rw [hbmod, sub_sub_cancel]
    exact toI32_eq_self hlow hhigh
  refine ⟨v, ?_⟩
  rw [compare_eq, hsub]
  exact loop_revs ((loop_self_iff t.parts).mpr ht) d

/-- An atom without a version, or with one of the grammar that compares with itself. -/
def Ordinary (a : Atom) : Prop :=
  ∀ v, a.version = some v → ∃ t : VersionText, SelfComparable t.parts ∧ v = atomVersionInit t.render

/-- The hashes are not the same by accident. -/
def HashTells (a b : Atom) : Prop := a.cachedHash = b.cachedHash → a.id = b.id ∧ a.version = b.version

/-- An ebuild of the package of an atom, of this version. -/
def ebuildOf (a : Atom) (version : AtomVersion) : Ebuild where
  addr := 1
  name := a.name
  category := a.category
  packageId := a.id
  key := []
  packageKey := a.key
  cacheFile := []
  version := some version

theorem matches_none {a : Atom} (h : a.version = none) (version : AtomVersion) {target : Ebuild}
    (hkey : a.key = target.packageKey) (htarget : target.version = some version) :
    atomMatches a target = some (a.range.has AtomRange.maskG) := by
  rw [atomMatches, if_neg (not_not.mpr hkey), h, htarget]
  rfl

/-- Without an accident of the hash, coherent atoms of one key state one requirement. -/
theorem SameRequirement.of_coherent {a b : Atom} (ha : a.Made) (hb : b.Made) (hkey : a.key = b.key)
    (hordinary : a.Ordinary) (htells : HashTells a b) (h : Coherent a b) : SameRequirement a b := by
  obtain ⟨hhash, hmatches⟩ := h ((richcompare_eq_iff a b).mpr hkey)
  rw [ha.atomHash, hb.atomHash, Option.some.injEq] at hhash
  obtain ⟨hid, hversion⟩ := htells hhash
  refine ⟨hid, hversion, ?_⟩
  cases hv : a.version with
  | none =>
    have hb' : b.version = none := hversion ▸ hv
    let version := atomVersionInit "0".toList
    have heq := hmatches (ebuildOf a version)
    rw [matches_none hv version rfl rfl, matches_none hb' version hkey.symm rfl, Option.some.injEq] at heq
    exact ⟨heq, fun hne => absurd rfl hne⟩
  | some version =>
    obtain ⟨t, ht, rfl⟩ := hordinary version hv
    have hb' : b.version = some (atomVersionInit t.render) := hversion ▸ hv
    have haccepts : ∀ d : Int, -2 ^ 31 ≤ d → d < 2 ^ 31 → a.range.accepts d = b.range.accepts d := by
      intro d hlow hhigh
      obtain ⟨v, hcompare⟩ := exists_revision ht hlow hhigh
      have heq := hmatches (ebuildOf a (atomVersionInit v.render))
      rw [atomMatches_of_key hv rfl rfl, atomMatches_of_key hb' rfl hkey.symm, hcompare] at heq
      exact Option.some.inj heq
    have hzero := haccepts 0 (by norm_num) (by norm_num)
    have hone := haccepts 1 (by norm_num) (by norm_num)
    have hminus := haccepts (-1) (by norm_num) (by norm_num)
    exact ⟨hminus, fun _ => ⟨hzero, hone⟩⟩

/-- Which atoms are coherent. -/
theorem coherent_iff {a b : Atom} (ha : a.Made) (hb : b.Made) :
    (a.key ≠ b.key ∨ SameRequirement a b → Coherent a b) ∧
      (a.Ordinary → HashTells a b → Coherent a b → a.key ≠ b.key ∨ SameRequirement a b) := by
  constructor
  · rintro (hkey | hsame)
    · exact coherent_of_key_ne hkey
    · exact hsame.coherent ha hb
  · intro hordinary htells hcoherent
    by_cases hkey : a.key = b.key
    · exact .inr (SameRequirement.of_coherent ha hb hkey hordinary htells hcoherent)
    · exact .inl hkey

instance (a b : Atom) : Decidable (SameRequirement a b) :=
  inferInstanceAs (Decidable (a.id = b.id ∧ a.version = b.version ∧
    a.range.has AtomRange.maskG = b.range.has AtomRange.maskG ∧
      (a.version ≠ none → a.range.has AtomRange.maskE = b.range.has AtomRange.maskE ∧
        a.range.has AtomRange.maskL = b.range.has AtomRange.maskL)))

/-- The atom of a text with an operator in front, parsed while no package is known. -/
def parsed (text : String) (range : AtomRange) : Option Atom :=
  (atomInit (Lut.lutNew 4) text.toList).toOption.map fun atom =>
    atom.decorate { Session.plain with range := range }

theorem parsed_made {text : String} {range : AtomRange} {a : Atom} (h : parsed text range = some a) :
    a.Made := by
  obtain ⟨atom, hatom, rfl⟩ := Option.map_eq_some_iff.mp h
  cases hinit : atomInit (Lut.lutNew 4) text.toList with
  | error e =>
    rw [hinit] at hatom
    exact absurd hatom (by simp [Except.toOption])
  | ok made =>
    rw [hinit] at hatom
    obtain rfl := Option.some.inj hatom
    exact ⟨_, _, made, _, hinit, rfl⟩

/-- `=a/b-1` and `~a/b-1` -/
theorem coherent_equal_revisions : ∃ a b, parsed "a/b-1" .e = some a ∧ parsed "a/b-1" .rev = some b ∧
    Coherent a b := by
  have hboth : (parsed "a/b-1" .e).bind (fun a => (parsed "a/b-1" .rev).map fun b =>
      decide (SameRequirement a b)) = some true := by
    decide +kernel
  obtain ⟨a, ha, hrest⟩ := Option.bind_eq_some_iff.mp hboth
  obtain ⟨b, hb, hsame⟩ := Option.map_eq_some_iff.mp hrest
  exact ⟨a, b, ha, hb, (coherent_iff (parsed_made ha) (parsed_made hb)).1 (.inr (of_decide_eq_true hsame))⟩

/-- `>=a/b-1` and `<a/b-1` are equal and of one hash, but do not match the same; `a/b`
is equal to both and of another hash. -/
theorem equal_atoms_differ : ∃ a b c, parsed "a/b-1" .ge = some a ∧ parsed "a/b-1" .l = some b ∧
    parsed "a/b" .all = some c ∧
      (pyAtomRichcompare a b .eq = true ∧ atomHash a = atomHash b ∧
        ∃ e, atomMatches a e = some true ∧ atomMatches b e = some false) ∧
      pyAtomRichcompare a c .eq = true ∧ atomHash a ≠ atomHash c := by
  have hall : (parsed "a/b-1" .ge).bind (fun a => (parsed "a/b-1" .l).bind fun b =>
      (parsed "a/b" .all).map fun c =>
        let e := ebuildOf a (atomVersionInit "2".toList)
        decide ((pyAtomRichcompare a b .eq = true ∧ atomHash a = atomHash b ∧
          atomMatches a e = some true ∧ atomMatches b e = some false) ∧
            pyAtomRichcompare a c .eq = true ∧ atomHash a ≠ atomHash c)) = some true := by
    decide +kernel
  obtain ⟨a, ha, hrest⟩ := Option.bind_eq_some_iff.mp hall
  obtain ⟨b, hb, hrest⟩ := Option.bind_eq_some_iff.mp hrest
  obtain ⟨c, hc, hfacts⟩ := Option.map_eq_some_iff.mp hrest
  obtain ⟨⟨heq, hhash, hmatch, hnot⟩, hother⟩ := of_decide_eq_true hfacts
  exact ⟨a, b, c, ha, hb, hc, ⟨heq, hhash, _, hmatch, hnot⟩, hother⟩

end Atom

end AutoGentoo
