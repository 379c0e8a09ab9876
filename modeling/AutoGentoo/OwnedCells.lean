import Mathlib.Data.List.Nodup
import Mathlib.Data.List.Perm.Basic
import Mathlib.Logic.Function.Basic

/-! Cells of a memory against the list of those that somebody owns. What is not
allocated is `none`, and 0 is no address. -/

namespace OwnedCells

variable {α : Type*} {heap after : Nat → Option α} {cells cells' : List (Nat × α)} {x : Nat} {a : α}

/-- An address that may be allocated. -/
def Fresh (heap : Nat → Option α) (x : Nat) : Prop := x ≠ 0 ∧ heap x = none

instance (heap : Nat → Option α) (x : Nat) [Decidable (heap x = none)] : Decidable (Fresh heap x) :=
  inferInstanceAs (Decidable (x ≠ 0 ∧ heap x = none))

def put (heap : Nat → Option α) (x : Nat) (a : α) : Nat → Option α := Function.update heap x (some a)

/-- What is not allocated cannot be freed; nothing happens for NULL. -/
def free (heap : Nat → Option α) (x : Nat) : Option (Nat → Option α) :=
  if x = 0 then some heap else (heap x).map fun _ => Function.update heap x none

/-- Each of the cells is there once. -/
structure Has (heap : Nat → Option α) (cells : List (Nat × α)) : Prop where
  nodup : (cells.map Prod.fst).Nodup
  cell : ∀ c ∈ cells, c.1 ≠ 0 ∧ heap c.1 = some c.2

/-- There is nothing else. -/
def Only (heap : Nat → Option α) (cells : List (Nat × α)) : Prop :=
  ∀ x, heap x ≠ none → x ∈ cells.map Prod.fst

theorem has_nil (heap : Nat → Option α) : Has heap [] := ⟨List.nodup_nil, by simp⟩

theorem Has.perm (h : Has heap cells) (hp : cells.Perm cells') : Has heap cells' :=
  ⟨(hp.map Prod.fst).nodup_iff.mp h.nodup, fun c hc => h.cell c (hp.mem_iff.mpr hc)⟩

theorem Only.perm (h : Only heap cells) (hp : cells.Perm cells') : Only heap cells' :=
  fun x hx => (hp.map Prod.fst).mem_iff.mp (h x hx)

theorem Has.read (h : Has heap ((x, a) :: cells)) : heap x = some a := (h.cell _ List.mem_cons_self).2

theorem Has.ne_zero (h : Has heap ((x, a) :: cells)) : x ≠ 0 := (h.cell _ List.mem_cons_self).1

theorem Has.fresh_notMem (h : Has heap cells) (hx : Fresh heap x) : x ∉ cells.map Prod.fst := by
  intro hm
  obtain ⟨c, hc, rfl⟩ := List.mem_map.mp hm
  exact absurd (hx.2.symm.trans (h.cell c hc).2) (by simp)

/-- The cells do not see what happens at another address. -/
theorem Has.update (h : Has heap cells) (hx : x ∉ cells.map Prod.fst) (o : Option α) :
    Has (Function.update heap x o) cells := by
  refine ⟨h.nodup, fun c hc => ⟨(h.cell c hc).1, ?_⟩⟩
  have hne : c.1 ≠ x := fun he => hx (he ▸ List.mem_map_of_mem hc)
  rw [Function.update_of_ne hne, (h.cell c hc).2]

theorem Has.head_notMem (h : Has heap ((x, a) :: cells)) : x ∉ cells.map Prod.fst :=
  (List.nodup_cons.mp h.nodup).1

theorem Has.tail (h : Has heap ((x, a) :: cells)) : Has heap cells :=
  ⟨(List.nodup_cons.mp h.nodup).2, fun c hc => h.cell c (List.mem_cons_of_mem _ hc)⟩

theorem Has.put_cons (h : Has heap cells) (hx : x ∉ cells.map Prod.fst) (hzero : x ≠ 0) (a : α) :
    Has (put heap x a) ((x, a) :: cells) := by
  refine ⟨List.nodup_cons.mpr ⟨hx, h.nodup⟩, fun c hc => ?_⟩
  rcases List.mem_cons.mp hc with rfl | hc
  · exact ⟨hzero, by simp [put]⟩
  · exact (h.update hx (some a)).cell c hc

theorem Has.alloc (h : Has heap cells) (hx : Fresh heap x) (a : α) : Has (put heap x a) ((x, a) :: cells) :=
  h.put_cons (h.fresh_notMem hx) hx.1 a

theorem Only.alloc (h : Only heap cells) (x : Nat) (a : α) : Only (put heap x a) ((x, a) :: cells) := by
  intro y hy
  by_cases hyx : y = x
  · exact hyx ▸ List.mem_cons_self
  · rw [put, Function.update_of_ne hyx] at hy
    exact List.mem_cons_of_mem _ (h y hy)

theorem Has.write (h : Has heap ((x, a) :: cells)) (b : α) : Has (put heap x b) ((x, b) :: cells) :=
  h.tail.put_cons h.head_notMem h.ne_zero b

theorem Has.free (h : Has heap ((x, a) :: cells)) :
    free heap x = some (Function.update heap x none) ∧ Has (Function.update heap x none) cells := by
  refine ⟨?_, h.tail.update h.head_notMem none⟩
  rw [OwnedCells.free, if_neg h.ne_zero, h.read]
  rfl

theorem Only.free (h : Only heap ((x, a) :: cells)) : Only (Function.update heap x none) cells := by
  intro y hy
  by_cases hyx : y = x
  · rw [hyx, Function.update_self] at hy
    exact absurd rfl hy
  · rw [Function.update_of_ne hyx] at hy
    exact (List.mem_cons.mp (h y hy)).resolve_left hyx

theorem free_freed (heap : Nat → Option α) (hx : x ≠ 0) : free (Function.update heap x none) x = none := by
  rw [free, if_neg hx, Function.update_self]
  rfl

end OwnedCells
