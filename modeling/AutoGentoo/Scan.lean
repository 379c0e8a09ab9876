import Mathlib.Data.List.Basic

/-! The elements that a scan of a list comes to, of which each one in front is skipped. -/

namespace Scan

variable {α β : Type} {skip skip' : α → Prop} {a x y : α} {l back : List α}

/-- The scan comes to `x`, with `back` behind it. -/
def ReachedAt (skip : α → Prop) (l : List α) (x : α) (back : List α) : Prop :=
  ∃ front, l = front ++ x :: back ∧ ∀ y ∈ front, skip y

def Reached (skip : α → Prop) (l : List α) (x : α) : Prop := ∃ back, ReachedAt skip l x back

theorem not_reachedAt_nil : ¬ ReachedAt skip [] x back := by
  rintro ⟨front, h, -⟩
  exact absurd h (by simp)

theorem reachedAt_cons :
    ReachedAt skip (a :: l) x back ↔ (a = x ∧ l = back) ∨ (skip a ∧ ReachedAt skip l x back) := by
  constructor
  · rintro ⟨front, hl, hfront⟩
    cases front with
    | nil => exact .inl (List.cons.inj hl)
    | cons y front =>
      obtain ⟨rfl, rfl⟩ := List.cons.inj hl
      obtain ⟨hy, hfront⟩ := List.forall_mem_cons.mp hfront
      exact .inr ⟨hy, front, rfl, hfront⟩
  · rintro (⟨rfl, rfl⟩ | ⟨ha, front, rfl, hfront⟩)
    · exact ⟨[], rfl, by simp⟩
    · exact ⟨a :: front, rfl, List.forall_mem_cons.mpr ⟨ha, hfront⟩⟩

theorem not_reached_nil : ¬ Reached skip [] x := fun ⟨_, h⟩ => not_reachedAt_nil h

theorem reached_cons : Reached skip (a :: l) x ↔ a = x ∨ (skip a ∧ Reached skip l x) := by
  constructor
  · rintro ⟨back, h⟩
    rcases reachedAt_cons.mp h with ⟨rfl, -⟩ | ⟨ha, h⟩
    · exact .inl rfl
    · exact .inr ⟨ha, back, h⟩
  · rintro (rfl | ⟨ha, back, h⟩)
    · exact ⟨l, reachedAt_cons.mpr (.inl ⟨rfl, rfl⟩)⟩
    · exact ⟨back, reachedAt_cons.mpr (.inr ⟨ha, h⟩)⟩

theorem Reached.mem (h : Reached skip l x) : x ∈ l := by
  obtain ⟨back, front, rfl, -⟩ := h
  simp

/-- Of elements that are not skipped the scan comes to the first only. -/
theorem Reached.unique (hx : Reached skip l x) (hy : Reached skip l y) (hnx : ¬ skip x) (hny : ¬ skip y) :
    x = y := by
  induction l with
  | nil => exact absurd hx not_reached_nil
  | cons a l ih =>
    rcases reached_cons.mp hx with rfl | ⟨ha, hx⟩
    · rcases reached_cons.mp hy with rfl | ⟨ha, hy⟩
      · rfl
      · exact absurd ha hnx
    · rcases reached_cons.mp hy with rfl | ⟨-, hy⟩
      · exact absurd ha hny
      · exact ih hx hy

end Scan
