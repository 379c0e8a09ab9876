import AutoGentoo.VersionWalk
import Mathlib.Data.Prod.Lex

/-! The order of the suffixes of one version. A version without a suffix is shorter, so
it comes before all the others, where the enumeration has it before `p` only. -/

namespace AutoGentoo

open CString ThreeWay VersionPart

/-- A number without leading zeros, below `2 ^ 31`. -/
abbrev SuffixNumber := { d : Digits // plainNumber d.1 d.1.length ∧ digitsVal d.1 < 2 ^ 31 }

namespace VersionText

/-- A dotted number with at most one suffix. -/
def suffixed (first : Digits) (more : List Digits) (s : Option (SuffixWord × SuffixNumber)) :
    VersionText where
  first := first
  more := more
  letter := none
  suffixes := (s.map fun s => (s.1, s.2.1.optional)).toList
  revision := none

/-- The place in `atom_version_pre_t`, then the number. -/
def suffixRank : Option (SuffixWord × SuffixNumber) → Int ×ₗ Nat
  | none => toLex (AtomPrefix.none.val, 0)
  | some s => toLex (s.1.kind.val, digitsVal s.2.1.1)

/-- A version without a suffix meets one whose suffix the enumeration puts before it. -/
def ReleaseAgainst (a b : Option (SuffixWord × SuffixNumber)) : Prop :=
  (a = none ∧ ∃ s ∈ b, s.1 ≠ .p) ∨ (b = none ∧ ∃ s ∈ a, s.1 ≠ .p)

/-- The component of a suffix with a number. -/
def numbered (s : SuffixWord × SuffixNumber) : VersionPart := suffix (s.1, s.2.1.optional)

section Numbered

variable (s : SuffixWord × SuffixNumber)

theorem numbered_pre : (numbered s).pre = s.1.kind :=
  suffix_pre (s := (s.1, s.2.1.optional)) s.2.1.2.1

theorem numbered_hasLetter : (numbered s).hasLetter = false :=
  suffix_hasLetter (s := (s.1, s.2.1.optional)) s.2.1.2.1

theorem numbered_number : (numbered s).number = digitsVal s.2.1.1 :=
  suffix_number (s := (s.1, s.2.1.optional)) s.2.1.2.1

theorem numbered_plain : (numbered s).Plain := by
  have htext : (numbered s).text = s.2.1.1 := suffix_text (s := (s.1, s.2.1.optional)) s.2.1.2.1
  rw [Plain, htext]
  exact s.2.2.1

end Numbered

theorem suffixed_parts (first : Digits) (more : List Digits) (s : Option (SuffixWord × SuffixNumber)) :
    (suffixed first more s).parts = (first :: more).map (fun d => numeric d none) ++
      (s.map numbered).toList := by
  cases s <;> simp [parts, suffixed, numericParts_none, numbered]

theorem numeric_passable_iff {d : Digits} :
    (numeric d none).Passable ↔ plainNumber d.1 d.1.length ∨ d.1.length < 128 := by
  rw [Passable, Plain, numeric_text_none]
  exact and_iff_right rfl

theorem kind_injective {s t : SuffixWord} (h : s.kind = t.kind) : s = t := by
  cases s <;> cases t <;> first | rfl | exact AtomPrefix.noConfusion h

theorem none_lt_rank_iff (s : SuffixWord × SuffixNumber) :
    suffixRank none < suffixRank (some s) ↔ s.1 = .p := by
  obtain ⟨w, i⟩ := s
  rw [suffixRank, suffixRank, Prod.Lex.toLex_lt_toLex]
  cases w <;> simp [SuffixWord.kind, AtomPrefix.val]

/-- Two suffixes are compared by their places, and by their numbers where they are of one kind. -/
theorem loop_numbered (s t : SuffixWord × SuffixNumber) :
    Reports (loop 0 [numbered s] [numbered t]) (suffixRank (some s)) (suffixRank (some t)) := by
  rw [loop_cons, Reports, suffixRank, suffixRank, Prod.Lex.toLex_lt_toLex, Prod.Lex.toLex_lt_toLex]
  by_cases hw : s.1 = t.1
  · have hpre : (numbered s).pre = (numbered t).pre := by rw [numbered_pre, numbered_pre, hw]
    have hs : (numbered s).number < 2 ^ 31 := by rw [numbered_number]; exact s.2.2.2
    have ht : (numbered t).number < 2 ^ 31 := by rw [numbered_number]; exact t.2.2.2
    rw [step_plain hpre (numbered_hasLetter s) (numbered_hasLetter t) (numbered_plain s)
      (numbered_plain t) hs ht, Option.bind_some, numbered_number, numbered_number]
    simp only [hw, lt_irrefl, false_or, true_and]
    by_cases he : (digitsVal s.2.1.1 : Int) - digitsVal t.2.1.1 = 0
    · rw [he]
      exact ⟨0, rfl, by omega, by omega⟩
    · rw [finish_ne he]
      exact ⟨_, rfl, by omega, by omega⟩
  · have hkind : s.1.kind ≠ t.1.kind := fun h => hw (kind_injective h)
    have hval : s.1.kind.val ≠ t.1.kind.val := fun h => hkind (AtomPrefix.val_injective h)
    have hpre : (numbered s).pre ≠ (numbered t).pre := by rwa [numbered_pre, numbered_pre]
    rw [step_pre hpre, Option.bind_some, resume, numbered_pre, numbered_pre]
    simp only [hval, Ne.symm hval, false_and, or_false]
    exact ⟨_, rfl, by omega, by omega⟩

/-- The order of the enumeration is the one of the comparison for all suffixes, but not
between a version without a suffix and a prerelease of it. -/
theorem suffix_order_iff (first : Digits) (more : List Digits) (a b : Option (SuffixWord × SuffixNumber)) :
    Reports (compare (suffixed first more a) (suffixed first more b)) (suffixRank a) (suffixRank b) ↔
      (∀ d ∈ first :: more, plainNumber d.1 d.1.length ∨ d.1.length < 128) ∧ ¬ ReleaseAgainst a b := by
  have hpassable : (∀ x ∈ (first :: more).map (fun d => numeric d none), x.Passable) ↔
      ∀ d ∈ first :: more, plainNumber d.1 d.1.length ∨ d.1.length < 128 := by
    rw [List.forall_mem_map]
    simp only [numeric_passable_iff]
  have hletters : ∀ x ∈ (first :: more).map (fun d => numeric d none), x.hasLetter = false := by
    rw [List.forall_mem_map]
    exact fun d _ => rfl
  have hrevs : toI32 (0 - 0) = 0 := rfl
  rw [compare_eq, suffixed_parts, suffixed_parts, ← hpassable]
  by_cases hall : ∀ x ∈ (first :: more).map (fun d => numeric d none), x.Passable
  · rw [loop_front hall, iff_comm, and_iff_right hall]
    cases a with
    | none =>
      cases b with
      | none =>
        have hsame : Reports (loop (toI32 (0 - 0)) [] []) (suffixRank none) (suffixRank none) :=
          ⟨0, rfl, by simp, by simp⟩
        exact iff_of_true (by simp [ReleaseAgainst]) hsame
      | some t =>
        have hcase : ReleaseAgainst none (some t) ↔ t.1 ≠ .p := by simp [ReleaseAgainst]
        rw [hcase, not_not, ← none_lt_rank_iff]
        exact (reports_neg_iff (by decide)).symm
    | some s =>
      cases b with
      | none =>
        have hcase : ReleaseAgainst (some s) none ↔ s.1 ≠ .p := by simp [ReleaseAgainst]
        rw [hcase, not_not, ← none_lt_rank_iff]
        exact (reports_pos_iff (by decide)).symm
      | some t => exact iff_of_true (by simp [ReleaseAgainst]) (loop_numbered s t)
  · rw [loop_stuck hletters hall]
    exact iff_of_false not_reports_none fun h => hall h.1

/-- `1_rc1` comes behind `1`. -/
theorem rc_behind_release :
    compare (suffixed (Digits.of "1") [] (some (.rc, ⟨Digits.of "1", by decide⟩)))
        (suffixed (Digits.of "1") [] none) = some 1 ∧
      ¬ ∀ first more a b, Reports (compare (suffixed first more a) (suffixed first more b))
        (suffixRank a) (suffixRank b) := by
  have h : compare (suffixed (Digits.of "1") [] (some (.rc, ⟨Digits.of "1", by decide⟩)))
      (suffixed (Digits.of "1") [] none) = some 1 := by decide
  refine ⟨h, fun hall => ?_⟩
  have hreports := hall (Digits.of "1") [] (some (.rc, ⟨Digits.of "1", by decide⟩)) none
  rw [h, reports_pos_iff (by decide), none_lt_rank_iff] at hreports
  exact absurd hreports (by decide)

end VersionText

end AutoGentoo
