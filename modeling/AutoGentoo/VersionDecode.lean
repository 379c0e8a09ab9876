import AutoGentoo.VersionGrammar

/-! The chain `atom_version_init` builds from a version text against the one the
comments of `AtomVersion` ask for, and the text written back from a chain. -/

namespace AutoGentoo

open CString

def AtomPrefix.keyword : AtomPrefix → List Char
  | alpha => "alpha".toList | beta => "beta".toList | pre => "pre".toList
  | rc => "rc".toList | none => [] | p => "p".toList

/-- A node with the separator in front of it. -/
def VersionNode.written (self : VersionNode) : List Char :=
  (if self.pre = .none then '.' else '_') :: (self.pre.keyword ++ self.v.getD [])

/-- The text a chain stands for, read from its nodes and its revision. -/
def AtomVersion.written (self : AtomVersion) : List Char :=
  (self.nodes.flatMap VersionNode.written).tail ++
    if self.revision = 0 then [] else '-' :: 'r' :: Nat.toDigits 10 self.revision.toNat

namespace VersionText

open VersionPart

def revisionNumber (t : VersionText) : Nat := (t.revision.map fun r => digitsVal r.1).getD 0

/-- "If there is a prefix, only include the integer part". -/
def suffixNode (s : SuffixWord × OptDigits) : VersionNode :=
  { v := some s.2.1, pre := s.1.kind }

def nodes (t : VersionText) : List VersionNode :=
  (numericParts t.first t.more t.letter).map toNode ++ t.suffixes.map suffixNode

/-- The number without its leading zeros; none is left of `0`. -/
def withoutZeros (r : Digits) : Option Digits :=
  if h : r.1.dropWhile (· = '0') = [] then none
  else some ⟨r.1.dropWhile (· = '0'), h, fun c hc => r.2.2 c ((List.dropWhile_sublist _).subset hc)⟩

def canonical (t : VersionText) : VersionText :=
  { t with revision := t.revision.bind withoutZeros }

/-- The chain determines the text it was built from. -/
structure Decodes (t : VersionText) (version : AtomVersion) : Prop where
  fullVersion : version.fullVersion = some t.render
  nodes : version.nodes = t.nodes
  revision : version.revision = t.revisionNumber
  written : version.written = t.canonical.render

end VersionText

theorem digitChar_digitVal {c : Char} (h : c.isDigit = true) : Nat.digitChar (digitVal c) = c := by
  have hc := isDigit_cases h
  apply Char.toNat_inj.mp
  rw [Nat.toNat_digitChar_of_lt_ten (digitVal_lt h)]
  show 48 + (c.toNat - 48) = c.toNat
  omega

/-- The digits behind a positive number stay as they are. -/
theorem toDigits_foldl {s : List Char} (h : ∀ c ∈ s, c.isDigit = true) {n : Nat} (hn : 0 < n) :
    Nat.toDigits 10 (s.foldl (fun n c => 10 * n + digitVal c) n) = Nat.toDigits 10 n ++ s := by
  induction s generalizing n with
  | nil => simp
  | cons c s ih =>
    have hc := h c (by simp)
    have hlast : Nat.toDigits 10 n ++ [c] = Nat.toDigits 10 (10 * n + digitVal c) := by
      have happ := Nat.toDigits_append_toDigits (b := 10) (n := n) (d := digitVal c) (by decide) hn
        (digitVal_lt hc)
      rwa [Nat.toDigits_of_lt_base (digitVal_lt hc), digitChar_digitVal hc] at happ
    rw [List.foldl_cons, ih (fun x hx => h x (by simp [hx])) (by omega), ← hlast]
    simp

theorem toDigits_digitsVal {c : Char} {s : List Char} (h : ∀ x ∈ c :: s, x.isDigit = true)
    (hc : c ≠ '0') : Nat.toDigits 10 (digitsVal (c :: s)) = c :: s := by
  have hd := h c (by simp)
  have hpos : 0 < digitVal c := by
    have hle := le_digitsVal (s := []) hd hc
    have hval : digitsVal [c] = digitVal c := by simp [digitsVal]
    rwa [hval] at hle
  show Nat.toDigits 10 (s.foldl _ (10 * 0 + digitVal c)) = _
  rw [toDigits_foldl (fun x hx => h x (by simp [hx])) (by omega), Nat.mul_zero, Nat.zero_add,
    Nat.toDigits_of_lt_base (digitVal_lt hd), digitChar_digitVal hd]
  rfl

theorem digitsVal_dropWhile (s : List Char) : digitsVal (s.dropWhile (· = '0')) = digitsVal s := by
  induction s with
  | nil => rfl
  | cons c s ih =>
    by_cases hc : c = '0'
    · subst hc
      rw [List.dropWhile_cons_of_pos (by simp), ih]
      rfl
    · rw [List.dropWhile_cons_of_neg (by simpa using hc)]

namespace VersionText

open VersionPart

theorem withoutZeros_text (r : Digits) : revisionText (withoutZeros r) =
    if digitsVal r.1 = 0 then [] else '-' :: 'r' :: Nat.toDigits 10 (digitsVal r.1) := by
  rw [withoutZeros]
  split
  · next h =>
    have hz : digitsVal r.1 = 0 := by rw [← digitsVal_dropWhile, h]; rfl
    rw [hz]
    rfl
  · next h =>
    obtain ⟨c, s, hcs⟩ := List.exists_cons_of_ne_nil h
    have hc : c ≠ '0' := by
      have hd := List.head_dropWhile_not (fun x => decide (x = '0')) (l := r.1) h
      simpa [hcs] using hd
    have hall : ∀ x ∈ c :: s, x.isDigit = true := by
      intro x hx
      exact r.2.2 x ((List.dropWhile_sublist _).subset (hcs ▸ hx))
    have hpos : digitsVal r.1 ≠ 0 := by
      have hle := le_digitsVal (s := s) (hall c (by simp)) hc
      have hten : 0 < 10 ^ s.length := by positivity
      rw [← digitsVal_dropWhile, hcs]
      omega
    have htext : Nat.toDigits 10 (digitsVal r.1) = r.1.dropWhile (· = '0') := by
      rw [← digitsVal_dropWhile, hcs, toDigits_digitsVal hall hc]
    rw [if_neg hpos, htext]
    rfl

theorem canonical_revisionText (t : VersionText) : revisionText t.canonical.revision =
    if t.revisionNumber = 0 then [] else '-' :: 'r' :: Nat.toDigits 10 t.revisionNumber := by
  rw [canonical, revisionNumber]
  cases t.revision with
  | none => rfl
  | some r => exact withoutZeros_text r

theorem numeric_written (d : Digits) (l : Option Letter) :
    (numeric d l).toNode.written = '.' :: (d.1 ++ letterText l) := rfl

theorem numericParts_written (d : Digits) (more : List Digits) (l : Option Letter) :
    ((numericParts d more l).map toNode).flatMap VersionNode.written =
      '.' :: numericText d more l := by
  induction more generalizing d with
  | nil => simp [numericParts, numericText, numeric_written]
  | cons e more ih =>
    rw [numericParts, List.map_cons, List.flatMap_cons, ih, numeric_written, numericText]
    simp [letterText]

theorem suffixNode_written (s : SuffixWord × OptDigits) : (suffixNode s).written = suffixText s := by
  obtain ⟨w, ds⟩ := s
  cases w <;> rfl

theorem nodes_written (t : VersionText) :
    (t.nodes.flatMap VersionNode.written).tail = t.body := by
  have hs : (t.suffixes.map suffixNode).flatMap VersionNode.written =
      t.suffixes.flatMap suffixText := by
    simp [List.flatMap_map, suffixNode_written]
  rw [nodes, List.flatMap_append, numericParts_written, hs]
  rfl

theorem written_of_nodes {t : VersionText} {self : AtomVersion} (hn : self.nodes = t.nodes)
    (hr : self.revision = t.revisionNumber) : self.written = t.canonical.render := by
  have hbody : t.canonical.body = t.body := rfl
  rw [AtomVersion.written, hn, nodes_written, hr, render, canonical_revisionText, hbody]
  simp

theorem suffix_toNode (s : SuffixWord × OptDigits) : (suffix s).toNode = suffixNode s ↔ s.2.1 ≠ [] := by
  rw [suffix]
  split
  · next h =>
    constructor
    · intro hn
      have hpre : AtomPrefix.none = s.1.kind := congrArg VersionNode.pre hn
      exact absurd hpre (by cases s.1 <;> decide)
    · exact fun hne => absurd h hne
  · next h =>
    refine ⟨fun _ => h, fun _ => ?_⟩
    simp [toNode, suffixNode, VersionPart.text]

theorem parts_toNode (t : VersionText) :
    t.parts.map toNode = t.nodes ↔ ∀ s ∈ t.suffixes, s.2.1 ≠ [] := by
  rw [parts, nodes, List.map_append, List.append_right_inj, List.map_map, List.map_inj_left]
  exact forall₂_congr fun s _ => suffix_toNode s

theorem revisionVal_eq (t : VersionText) :
    t.revisionVal = t.revisionNumber ↔ t.revisionNumber < 2 ^ 31 := by
  rw [revisionVal, revisionNumber]
  cases t.revision with
  | none => simp
  | some r =>
    show toI32 (clampLong (digitsVal r.1)) = (digitsVal r.1 : Int) ↔ digitsVal r.1 < 2 ^ 31
    constructor
    · intro h
      have hb := (toI32_bounds (clampLong (digitsVal r.1))).2
      omega
    · intro h
      have hclamp : clampLong (digitsVal r.1) = digitsVal r.1 := by
        unfold clampLong
        omega
      rw [hclamp]
      exact toI32_eq_self (by omega) (by omega)

theorem decodes_iff (t : VersionText) : t.Decodes (atomVersionInit t.render) ↔
    (∀ s ∈ t.suffixes, s.2.1 ≠ []) ∧ t.revisionNumber < 2 ^ 31 := by
  obtain ⟨hfull, hnodes, hrev⟩ := t.init_render
  constructor
  · intro h
    exact ⟨t.parts_toNode.mp (hnodes.symm.trans h.nodes), t.revisionVal_eq.mp (hrev.symm.trans h.revision)⟩
  · intro ⟨hsuf, hnum⟩
    have hn := hnodes.trans (t.parts_toNode.mpr hsuf)
    have hr := hrev.trans (t.revisionVal_eq.mpr hnum)
    exact { fullVersion := hfull, nodes := hn, revision := hr, written := written_of_nodes hn hr }

theorem digits_nil : ∀ c ∈ ([] : List Char), c.isDigit = true := List.forall_mem_nil _

/-- `1_alpha` -/
def oneAlpha : VersionText where
  first := Digits.of "1"
  more := []
  letter := none
  suffixes := [(.alpha, ⟨[], digits_nil⟩)]
  revision := none

theorem oneAlpha_not_decoded : ¬ ∀ t : VersionText, t.Decodes (atomVersionInit t.render) := by
  intro h
  have hs := (h oneAlpha).nodes
  exact absurd hs (by decide)

end VersionText

end AutoGentoo
