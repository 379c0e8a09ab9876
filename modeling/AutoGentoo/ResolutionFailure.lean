import AutoGentoo.UseDependencies

/-! A `get_resolved` that raises. The session takes the object in before
`regenerate` begins, and nothing takes it out again. -/

namespace AutoGentoo

open Emerge

namespace Emerge

/-- The session is what it was, and so is the state of every flag of the object. -/
structure RolledBack (sel : Nat) (s t : Emerge) : Prop where
  session : ∀ x, x ∈ t.resolveSession ↔ x ∈ s.resolveSession
  flags : ∀ name, t.useState sel name = s.useState sel name

/-- A call that raises leaves things as they were, and the next one does not return
at once. -/
def Atomic (regenerate : Nat → Resolution Unit) (sel : Nat) (s : Emerge) : Prop :=
  ∀ e t, getResolved regenerate sel s = (.error (.raised e), t) →
    RolledBack sel s t ∧ sel ∉ t.resolveSession

end Emerge

/-- Only an object outside of the session is resolved, and only that can raise. -/
theorem notMem_of_raised {regenerate : Nat → Resolution Unit} {sel : Nat} {s t : Emerge} {e : Stop}
    (h : getResolved regenerate sel s = (.error e, t)) : sel ∉ s.resolveSession := by
  intro hmem
  rw [getResolved_of_mem regenerate hmem] at h
  exact absurd (Prod.mk.inj h).1 (by simp)

theorem getResolved_mem (loop : ForLoop) (fuel sel : Nat) (s : Emerge) :
    sel ∈ (getResolved (regenerate (selectAtomOver loop) fuel) sel s).2.resolveSession := by
  by_cases hmem : sel ∈ s.resolveSession
  · rw [getResolved_of_mem _ hmem]
    exact hmem
  · rw [getResolved_of_notMem _ hmem]
    apply (session_frame loop sel).regenerate fuel trivial
    exact List.mem_cons_self

/-- From whatever point it raises, the session is not what it was, and the next
call returns at once. -/
theorem getResolved_raised {loop : ForLoop} {fuel sel : Nat} {s t : Emerge} {e : PyError}
    (h : getResolved (regenerate (selectAtomOver loop) fuel) sel s = (.error (.raised e), t)) :
    ¬ RolledBack sel s t ∧
      ∀ regenerate : Nat → Resolution Unit, getResolved regenerate sel t = (.ok (), t) := by
  have hbefore := notMem_of_raised h
  have hafter : sel ∈ t.resolveSession := by
    have hmem := getResolved_mem loop fuel sel s
    rwa [h] at hmem
  constructor
  · intro hback
    exact hbefore ((hback.session sel).mp hafter)
  · intro regenerate
    exact getResolved_of_mem regenerate hafter

/-- `app-misc/foo` with the flag `f` off, which REQUIRED_USE wants. -/
def offFile : Metadata :=
  { pairFile false with requiredUse := .node (some ['f']) .disable .null .null }

/-- It has been resolved in an earlier session, and then `f` was scheduled. -/
def failStart : Emerge :=
  let s := [EmergeCall.selectAtom none (pairAtom "foo" []), .getResolved 1 0].foldl
    (EmergeCall.step search)
    (Emerge.init pairRepository UseHeap.init (fun _ => { fields := offFile, ok := true }) [])
  (scheduleUse 0 { name := ['f'], state := true } { s with resolveSession := [] }).2

def failResult : Except Stop Unit × Emerge := getResolved (regenerate selectAtom 1) 0 failStart

/-- The suggestion of a REQUIRED_USE failure. -/
def Stop.suggested : Except Stop Unit → Option Suggestion
  | .error (.raised (.requiredUse suggestion)) => some suggestion
  | _ => none

theorem raised_of_suggested {r : Except Stop Unit × Emerge} (h : (Stop.suggested r.1).isSome = true) :
    ∃ e, r = (.error (.raised e), r.2) := by
  rcases r with ⟨(_ | _ | _) | _, t⟩
  · exact ⟨_, rfl⟩
  all_goals exact absurd h (by simp [Stop.suggested])

theorem failResult_raised : ∃ e, failResult = (.error (.raised e), failResult.2) :=
  raised_of_suggested (by decide +kernel)

theorem getResolved_raised_off : ¬ RolledBack 0 failStart failResult.2 ∧
    ∀ regenerate : Nat → Resolution Unit,
      getResolved regenerate 0 failResult.2 = (.ok (), failResult.2) := by
  obtain ⟨e, he⟩ := failResult_raised
  exact getResolved_raised he

/-- REQUIRED_USE refuses `f`, which is on from then on. -/
theorem off_not_rolledBack : ¬ ∀ (fuel sel : Nat) (s : Emerge),
    Atomic (regenerate selectAtom fuel) sel s := by
  intro hall
  obtain ⟨e, he⟩ := failResult_raised
  have hflags := (hall 1 0 failStart e _ he).1.flags ['f']
  have hbefore : failStart.useState 0 ['f'] = some false := by decide +kernel
  have hafter : failResult.2.useState 0 ['f'] = some true := by decide +kernel
  exact absurd (hafter.symm.trans (hflags.trans hbefore)) (by simp)

end AutoGentoo
