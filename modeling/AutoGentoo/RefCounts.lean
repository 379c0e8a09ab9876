import Mathlib.Data.List.Count
import Mathlib.Data.List.Perm.Basic
import Mathlib.Logic.Function.Basic
import Mathlib.Algebra.Group.Int.Defs

/-! Reference counts against the list of those who hold a reference. 0 is the
reference to nothing. -/

/-- The counts, and what has been freed, the latest first. -/
structure RefCounts (α : Type*) where
  count : α → Int
  freed : List α

namespace RefCounts

variable {α : Type*} {self after : RefCounts α} {outside : α → Nat} {holders holders' : List α} {x : α}

/-- What has been freed since is held by nobody. -/
def FreesUnheld (self after : RefCounts α) (outside : α → Nat) (holders : List α) : Prop :=
  ∃ new, after.freed = new ++ self.freed ∧ ∀ x ∈ new, outside x = 0 ∧ x ∉ holders

namespace FreesUnheld

theorem refl (self : RefCounts α) (outside : α → Nat) (holders : List α) :
    self.FreesUnheld self outside holders := ⟨[], rfl, by simp⟩

theorem trans {last : RefCounts α} (h : self.FreesUnheld after outside holders)
    (h' : after.FreesUnheld last outside holders') (hsub : ∀ x ∈ holders', x ∈ holders) :
    self.FreesUnheld last outside holders' := by
  obtain ⟨new, hnew, hfree⟩ := h
  obtain ⟨new', hnew', hfree'⟩ := h'
  refine ⟨new' ++ new, by rw [hnew', hnew, List.append_assoc], fun x hx => ?_⟩
  obtain hx | hx := List.mem_append.mp hx
  · exact hfree' x hx
  · exact ⟨(hfree x hx).1, fun hm => (hfree x hx).2 (hsub x hm)⟩

theorem of_freed_eq (h : after.freed = self.freed) : self.FreesUnheld after outside holders :=
  ⟨[], by rw [h]; rfl, by simp⟩

end FreesUnheld

variable [DecidableEq α] [Zero α]

def take (self : RefCounts α) (x : α) : RefCounts α :=
  if x = 0 then self else { self with count := Function.update self.count x (self.count x + 1) }

/-- An object is freed when its count comes down to zero. -/
def release (self : RefCounts α) (x : α) : RefCounts α :=
  if x = 0 then self
  else
    { count := Function.update self.count x (self.count x - 1)
      freed := if self.count x - 1 = 0 then x :: self.freed else self.freed }

/-- The same where the count is unsigned: it stays at zero. -/
def releaseUnsigned (self : RefCounts α) (x : α) : RefCounts α :=
  if x ≠ 0 ∧ self.count x = 0 then { self with freed := x :: self.freed } else self.release x

/-- Every reference is counted once: those outside, and those of the holders. -/
def Balanced (self : RefCounts α) (outside : α → Nat) (holders : List α) : Prop :=
  ∀ x, x ≠ 0 → self.count x = outside x + holders.count x

theorem count_take (self : RefCounts α) (x : α) {y : α} (hy : y ≠ 0) :
    (self.take x).count y = self.count y + if x = y then 1 else 0 := by
  rw [take]
  by_cases hx : x = 0
  · rw [if_pos hx, if_neg fun h : x = y => hy (h ▸ hx), Int.add_zero]
  · rw [if_neg hx]
    by_cases he : x = y
    · subst he
      simp
    · rw [if_neg he, Int.add_zero]
      exact Function.update_of_ne (Ne.symm he) _ _

theorem count_release (self : RefCounts α) (x : α) {y : α} (hy : y ≠ 0) :
    (self.release x).count y = self.count y - if x = y then 1 else 0 := by
  rw [release]
  by_cases hx : x = 0
  · rw [if_pos hx, if_neg fun h : x = y => hy (h ▸ hx), Int.sub_zero]
  · rw [if_neg hx]
    by_cases he : x = y
    · subst he
      simp
    · rw [if_neg he, Int.sub_zero]
      exact Function.update_of_ne (Ne.symm he) _ _

theorem freed_take (self : RefCounts α) (x : α) : (self.take x).freed = self.freed := by
  rw [take]
  split_ifs <;> rfl

namespace Balanced

theorem perm (h : self.Balanced outside holders) (hp : holders.Perm holders') :
    self.Balanced outside holders' := by
  intro x hx
  rw [h x hx, hp.count_eq]

theorem update_zero (h : self.Balanced outside holders) (n : Nat) :
    self.Balanced (Function.update outside 0 n) holders := by
  intro x hx
  rw [h x hx, Function.update_of_ne hx]

theorem take (h : self.Balanced outside holders) (x : α) :
    (self.take x).Balanced outside (x :: holders) := by
  intro y hy
  rw [count_take self x hy, h y hy, List.count_cons]
  by_cases he : x = y
  · simp [he]
    omega
  · simp [he]

theorem release (h : self.Balanced outside (x :: holders)) :
    (self.release x).Balanced outside holders := by
  intro y hy
  rw [count_release self x hy, h y hy, List.count_cons]
  by_cases he : x = y
  · simp [he]
    omega
  · simp [he]

/-- A reference that passes to somebody outside. -/
theorem pass (h : self.Balanced outside (x :: holders)) :
    self.Balanced (Function.update outside x (outside x + 1)) holders := by
  intro y hy
  rw [h y hy, List.count_cons]
  by_cases he : x = y
  · subst he
    simp
    omega
  · rw [Function.update_of_ne (Ne.symm he)]
    simp [he]

/-- A reference from outside. -/
theorem receive (h : self.Balanced outside holders) (hx : outside x ≠ 0) :
    self.Balanced (Function.update outside x (outside x - 1)) (x :: holders) := by
  intro y hy
  rw [h y hy, List.count_cons]
  by_cases he : x = y
  · subst he
    simp
    omega
  · rw [Function.update_of_ne (Ne.symm he)]
    simp [he]

theorem releaseUnsigned_eq (h : self.Balanced outside (x :: holders)) :
    self.releaseUnsigned x = self.release x := by
  apply if_neg
  rintro ⟨hx, hz⟩
  have hcount := h x hx
  rw [List.count_cons_self] at hcount
  omega

theorem freesUnheld_release (h : self.Balanced outside (x :: holders)) :
    self.FreesUnheld (self.release x) outside holders := by
  rw [RefCounts.release]
  by_cases hx : x = 0
  · rw [if_pos hx]
    exact ⟨[], rfl, by simp⟩
  · rw [if_neg hx]
    by_cases hz : self.count x - 1 = 0
    · refine ⟨[x], by simp [hz], ?_⟩
      have hcount := h x hx
      rw [List.count_cons_self] at hcount
      simp only [List.mem_singleton, forall_eq]
      exact ⟨by omega, List.count_eq_zero.mp (by omega)⟩
    · exact ⟨[], by simp [hz], by simp⟩

/-- A holder more or less is only right if it holds nothing. -/
theorem cons_iff (h : self.Balanced outside (x :: holders)) : self.Balanced outside holders ↔ x = 0 := by
  constructor
  · intro h'
    by_contra hx
    have hcount := (h x hx).symm.trans (h' x hx)
    rw [List.count_cons_self] at hcount
    omega
  · intro hx y hy
    rw [h y hy, List.count_cons_of_ne (by rw [hx]; exact hy.symm)]

theorem releaseAll {l : List α} (h : self.Balanced outside (l ++ holders)) :
    (l.foldl RefCounts.release self).Balanced outside holders := by
  induction l generalizing self with
  | nil => exact h
  | cons x l ih => exact ih h.release

end Balanced

/-- Of a list of references released one after the other, none is freed that those
behind it still hold. -/
theorem Balanced.freesUnheld_releaseAll {l : List α} (h : self.Balanced outside (l ++ holders)) :
    self.FreesUnheld (l.foldl RefCounts.release self) outside holders := by
  induction l generalizing self with
  | nil => exact .refl _ _ _
  | cons x l ih =>
    exact h.freesUnheld_release.trans (ih h.release) fun y hy => List.mem_append_right l hy

end RefCounts
