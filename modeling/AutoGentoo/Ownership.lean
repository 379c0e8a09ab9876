import Mathlib.Algebra.BigOperators.Group.List.Basic
import Mathlib.Algebra.GroupWithZero.Nat
import Mathlib.Data.List.Count
import Mathlib.Logic.Relation

/-! Heaps of counted objects that own references to one another, where the last reference
takes an object with it, and what that one owns. An address is not used again. -/

namespace Ownership

open Relation

structure Object (α : Type*) where
  count : Nat
  value : α
  deriving DecidableEq, Repr

/-- The objects at their addresses; what has been freed is gone. -/
abbrev Heap (α : Type*) := List (Option (Object α))

variable {α : Type*}

def Heap.object (heap : Heap α) (x : Nat) : Option (Object α) := heap[x]?.join

def Heap.write (heap : Heap α) (x : Nat) (o : Option (Object α)) : Heap α := heap.set x o

def Heap.live (heap : Heap α) : Nat := (heap.map fun o => o.elim 0 fun _ => 1).sum

/-- How many references to an address the objects own. -/
def Heap.owners (owned : α → List Nat) (heap : Heap α) (x : Nat) : Nat :=
  (heap.map fun o => o.elim 0 fun object => (owned object.value).count x).sum

/-- There is no result where freed memory is touched. -/
def incref (heap : Heap α) (x : Nat) : Option (Heap α) :=
  (heap.object x).map fun object => heap.write x (some { object with count := object.count + 1 })

def decref (owned : α → List Nat) : Nat → Heap α → Nat → Option (Heap α)
  | 0, _, _ => none
  | fuel + 1, heap, x =>
    (heap.object x).bind fun object =>
      if object.count ≤ 1 then (owned object.value).foldlM (decref owned fuel) (heap.write x none)
      else some (heap.write x (some { object with count := object.count - 1 }))

variable (owned : α → List Nat)

/-- A reference is held from outside or owned by an object, and counted once. -/
structure Balanced (heap : Heap α) (held : Nat → Nat) : Prop where
  count : ∀ x object, heap.object x = some object → object.count = held x + heap.owners owned x
  positive : ∀ x object, heap.object x = some object → 0 < object.count
  dead : ∀ x, heap.object x = none → held x + heap.owners owned x = 0

def Owns (heap : Heap α) (y x : Nat) : Prop := ∃ object, heap.object y = some object ∧ x ∈ owned object.value

/-- What is there was there, with the same value. -/
structure Shrinks (heap after : Heap α) : Prop where
  length : after.length = heap.length
  live : after.live ≤ heap.live
  kept : ∀ x object, after.object x = some object →
    ∃ old, heap.object x = some old ∧ old.value = object.value

variable {owned} {heap after last : Heap α} {held : Nat → Nat} {x y : Nat} {object : Object α}

theorem Shrinks.refl (heap : Heap α) : Shrinks heap heap :=
  ⟨rfl, Nat.le_refl _, fun _ object h => ⟨object, h, rfl⟩⟩

theorem Shrinks.trans (h : Shrinks heap after) (h' : Shrinks after last) : Shrinks heap last := by
  refine ⟨h'.length.trans h.length, Nat.le_trans h'.live h.live, fun x object hx => ?_⟩
  obtain ⟨mid, hmid, hvalue⟩ := h'.kept x object hx
  obtain ⟨old, hold, hvalue'⟩ := h.kept x mid hmid
  exact ⟨old, hold, hvalue'.trans hvalue⟩

theorem Shrinks.owns (h : Shrinks heap after) (hy : Owns owned after y x) : Owns owned heap y x := by
  obtain ⟨object, hobject, hx⟩ := hy
  obtain ⟨old, hold, hvalue⟩ := h.kept y object hobject
  exact ⟨old, hold, hvalue ▸ hx⟩

theorem object_lt (h : heap.object x = some object) : heap[x]? = some (some object) := by
  rw [Heap.object] at h
  cases hx : heap[x]? with
  | none => rw [hx] at h; exact absurd h (by simp)
  | some o => rw [hx] at h; exact congrArg some h

theorem object_write (h : heap.object x = some object) (o : Option (Object α)) (y : Nat) :
    (heap.write x o).object y = if y = x then o else heap.object y := by
  have hlt := (List.getElem?_eq_some_iff.mp (object_lt h)).1
  rw [Heap.object, Heap.write, List.getElem?_set]
  by_cases hy : x = y
  · rw [if_pos hy, if_pos hy.symm, if_pos hlt]
    rfl
  · rw [if_neg hy, if_neg (Ne.symm hy)]
    rfl

theorem object_append (heap : Heap α) (o : Option (Object α)) (y : Nat) :
    Heap.object (heap ++ [o]) y = if y = heap.length then o else heap.object y := by
  rw [Heap.object, Heap.object]
  rcases Nat.lt_trichotomy y heap.length with hlt | rfl | hgt
  · rw [List.getElem?_append_left hlt, if_neg (Nat.ne_of_lt hlt)]
  · simp
  · rw [if_neg (Nat.ne_of_gt hgt), List.getElem?_eq_none (by rw [List.length_append]; exact hgt),
      List.getElem?_eq_none (Nat.le_of_lt hgt)]

theorem sum_set {β : Type*} (f : β → Nat) {l : List β} {a : β} (h : l[x]? = some a) (b : β) :
    ((l.set x b).map f).sum + f a = (l.map f).sum + f b := by
  induction l generalizing x with
  | nil => exact absurd h (by simp)
  | cons c l ih =>
    cases x with
    | zero =>
      obtain rfl := Option.some.inj h
      simp only [List.set_cons_zero, List.map_cons, List.sum_cons]
      omega
    | succ x =>
      have hrest := ih h
      simp only [List.set_cons_succ, List.map_cons, List.sum_cons]
      omega

variable (owned) in
theorem owners_write (h : heap.object x = some object) (o : Option (Object α)) (y : Nat) :
    (heap.write x o).owners owned y + (owned object.value).count y =
      heap.owners owned y + o.elim 0 fun object => (owned object.value).count y :=
  sum_set _ (object_lt h) o

theorem live_write (h : heap.object x = some object) (o : Option (Object α)) :
    (heap.write x o).live + 1 = heap.live + o.elim 0 fun _ => 1 := sum_set _ (object_lt h) o

theorem owners_pos : 0 < heap.owners owned x ↔ ∃ y, Owns owned heap y x := by
  rw [Heap.owners, List.sum_pos_iff_exists_pos_nat]
  simp only [List.mem_map, exists_exists_and_eq_and]
  constructor
  · rintro ⟨o, ho, hpos⟩
    cases o with
    | none => exact absurd hpos (Nat.lt_irrefl 0)
    | some object =>
      obtain ⟨y, hy⟩ := List.getElem?_of_mem ho
      exact ⟨y, object, by rw [Heap.object, hy]; rfl, List.count_pos_iff.mp hpos⟩
  · rintro ⟨y, object, hobject, hx⟩
    exact ⟨some object, List.mem_of_getElem? (object_lt hobject), List.count_pos_iff.mpr hx⟩

/-- What is held or owned is there. -/
theorem Balanced.alive (h : Balanced owned heap held) (hx : 0 < held x + heap.owners owned x) :
    ∃ object, heap.object x = some object := by
  cases hobject : heap.object x with
  | none => exact absurd (h.dead x hobject) (Nat.ne_of_gt hx)
  | some object => exact ⟨object, rfl⟩

theorem Balanced.released_alive (h : Balanced owned heap fun y => held y + [x].count y) :
    ∃ object, heap.object x = some object := by
  refine h.alive ?_
  rw [List.count_singleton_self]
  omega

theorem Balanced.owned_alive (h : Balanced owned heap held) (hx : Owns owned heap y x) :
    ∃ object, heap.object x = some object :=
  h.alive (Nat.lt_of_lt_of_le (owners_pos.mpr ⟨y, hx⟩) (Nat.le_add_left _ _))

theorem owners_adjust (h : heap.object x = some object) (n y : Nat) :
    (heap.write x (some { object with count := n })).owners owned y = heap.owners owned y := by
  have howners := owners_write owned h (some { object with count := n }) y
  simp only [Option.elim_some] at howners
  omega

theorem adjust_shrinks (h : heap.object x = some object) (n : Nat) :
    Shrinks heap (heap.write x (some { object with count := n })) := by
  refine ⟨List.length_set .., ?_, fun y object' hy => ?_⟩
  · have hlive := live_write h (some { object with count := n })
    simp only [Option.elim_some] at hlive
    omega
  · rw [object_write h] at hy
    split_ifs at hy with hyx
    · obtain rfl := Option.some.inj hy
      exact ⟨object, hyx ▸ h, rfl⟩
    · exact ⟨object', hy, rfl⟩

theorem Balanced.adjust (hbalanced : Balanced owned heap held) (h : heap.object x = some object)
    {held' : Nat → Nat} {n : Nat} (hn : 0 < n) (hself : n = held' x + heap.owners owned x)
    (hother : ∀ y, y ≠ x → held' y = held y) :
    Balanced owned (heap.write x (some { object with count := n })) held' := by
  refine ⟨fun y object' hy => ?_, fun y object' hy => ?_, fun y hy => ?_⟩
  · rw [owners_adjust h]
    rw [object_write h] at hy
    split_ifs at hy with hyx
    · obtain rfl := Option.some.inj hy
      rw [hyx]
      exact hself
    · rw [hother y hyx]
      exact hbalanced.count y object' hy
  · rw [object_write h] at hy
    split_ifs at hy
    · obtain rfl := Option.some.inj hy
      exact hn
    · exact hbalanced.positive y object' hy
  · rw [owners_adjust h]
    rw [object_write h] at hy
    split_ifs at hy with hyx
    rw [hother y hyx]
    exact hbalanced.dead y hy

/-- A value that owns other references, where those held make up for it. -/
theorem Balanced.rewrite (h : Balanced owned heap held) (hx : heap.object x = some object)
    {new : Object α} {held' : Nat → Nat} (hpos : 0 < new.count)
    (hother : ∀ y, y ≠ x → held' y + (owned new.value).count y = held y + (owned object.value).count y)
    (hself : new.count + (held x + (owned object.value).count x) =
      object.count + (held' x + (owned new.value).count x)) :
    Balanced owned (heap.write x (some new)) held' := by
  have howners := fun y => owners_write owned hx (some new) y
  simp only [Option.elim_some] at howners
  refine ⟨fun y object' hy => ?_, fun y object' hy => ?_, fun y hy => ?_⟩
  · have hy' := howners y
    rw [object_write hx] at hy
    split_ifs at hy with hyx
    · obtain rfl := Option.some.inj hy
      subst hyx
      have hcount := h.count y object hx
      omega
    · have hcount := h.count y object' hy
      have hsame := hother y hyx
      omega
  · rw [object_write hx] at hy
    split_ifs at hy
    · obtain rfl := Option.some.inj hy
      exact hpos
    · exact h.positive y object' hy
  · have hy' := howners y
    rw [object_write hx] at hy
    split_ifs at hy with hyx
    have hdead := h.dead y hy
    have hsame := hother y hyx
    omega

/-- A new object, made of references that were held. -/
theorem Balanced.build (h : Balanced owned heap held) (value : α) (hheld : ∀ y, (owned value).count y ≤ held y) :
    Balanced owned (heap ++ [some ⟨1, value⟩] : Heap α)
      fun y => held y - (owned value).count y + [heap.length].count y := by
  have howners : ∀ y, Heap.owners owned (heap ++ [some ⟨1, value⟩]) y = heap.owners owned y + (owned value).count y := by
    intro y
    simp [Heap.owners]
  have hnew : heap.object heap.length = none := by
    rw [Heap.object, List.getElem?_eq_none (Nat.le_refl _)]
    rfl
  refine ⟨fun y object' hy => ?_, fun y object' hy => ?_, fun y hy => ?_⟩ <;> rw [object_append] at hy
  · rw [howners]
    split_ifs at hy with hyx
    · obtain rfl := Option.some.inj hy
      subst hyx
      have hdead := h.dead _ hnew
      have hle := hheld heap.length
      rw [List.count_singleton_self]
      show 1 = _
      omega
    · have hcount := h.count y object' hy
      have hle := hheld y
      rw [List.count_singleton, if_neg (by simpa using Ne.symm hyx)]
      omega
  · split_ifs at hy
    · obtain rfl := Option.some.inj hy
      exact Nat.one_pos
    · exact h.positive y object' hy
  · rw [howners]
    split_ifs at hy with hyx
    have hdead := h.dead y hy
    have hle := hheld y
    rw [List.count_singleton, if_neg (by simpa using Ne.symm hyx)]
    omega

theorem incref_spec (h : Balanced owned heap held) (hx : heap.object x = some object) :
    ∃ after, incref heap x = some after ∧ Shrinks heap after ∧
      Balanced owned after fun y => held y + [x].count y := by
  refine ⟨heap.write x (some { object with count := object.count + 1 }), by rw [incref, hx]; rfl,
    adjust_shrinks hx _, h.adjust hx (Nat.succ_pos _) ?_ fun y hy => ?_⟩
  · rw [h.count x object hx, List.count_singleton_self]
    omega
  · rw [List.count_singleton, if_neg (by simpa using Ne.symm hy), Nat.add_zero]

/-- What is freed gives its references to be released. -/
theorem Balanced.free (h : Balanced owned heap fun y => held y + [x].count y)
    (hx : heap.object x = some object) (hlast : object.count ≤ 1) :
    Balanced owned (heap.write x none) (fun y => held y + (owned object.value).count y) ∧
      Shrinks heap (heap.write x none) ∧ (heap.write x none).live < heap.live := by
  have howners := fun y => owners_write owned hx none y
  have hlive := live_write hx none
  simp only [Option.elim_none] at howners hlive
  have hnone : held x = 0 ∧ heap.owners owned x = 0 := by
    have hcount := h.count x object hx
    rw [List.count_singleton_self] at hcount
    omega
  refine ⟨⟨fun y object' hy => ?_, fun y object' hy => ?_, fun y hy => ?_⟩,
    ⟨List.length_set .., by omega, fun y object' hy => ?_⟩, by omega⟩
  · have hy' := howners y
    rw [object_write hx] at hy
    split_ifs at hy with hyx
    have hcount := h.count y object' hy
    rw [List.count_singleton, if_neg (by simpa using Ne.symm hyx)] at hcount
    omega
  · rw [object_write hx] at hy
    split_ifs at hy
    exact h.positive y object' hy
  · have hy' := howners y
    rw [object_write hx] at hy
    split_ifs at hy with hyx
    · subst hyx
      omega
    · have hdead := h.dead y hy
      omega
  · rw [object_write hx] at hy
    split_ifs at hy
    exact ⟨object', hy, rfl⟩

/-- Releasing one reference after the other. -/
theorem foldlM_spec {release : Heap α → Nat → Option (Heap α)} {fuel : Nat}
    (hrelease : ∀ {heap held x}, Balanced owned heap (fun y => held y + [x].count y) → heap.live ≤ fuel →
      ∃ after, release heap x = some after ∧ Shrinks heap after ∧ Balanced owned after held)
    (l : List Nat) {heap : Heap α} {held : Nat → Nat} (h : Balanced owned heap fun y => held y + l.count y)
    (hfuel : heap.live ≤ fuel) :
    ∃ after, l.foldlM release heap = some after ∧ Shrinks heap after ∧ Balanced owned after held := by
  induction l generalizing heap with
  | nil => exact ⟨heap, rfl, .refl heap, by simpa using h⟩
  | cons x l ih =>
    have hsplit : Balanced owned heap fun y => (held y + l.count y) + [x].count y := by
      convert h using 2 with y
      simp only [List.count_cons, List.count_nil]
      omega
    obtain ⟨mid, hmid, hshrinks, hbalanced⟩ := hrelease hsplit hfuel
    obtain ⟨after, hafter, hshrinks', hbalanced'⟩ := ih hbalanced (Nat.le_trans hshrinks.live hfuel)
    exact ⟨after, by rw [List.foldlM_cons, hmid]; exact hafter, hshrinks.trans hshrinks', hbalanced'⟩

/-- Releasing a reference ends, and leaves the others counted. -/
theorem decref_spec (fuel : Nat) {heap : Heap α} {held : Nat → Nat} {x : Nat}
    (h : Balanced owned heap fun y => held y + [x].count y) (hfuel : heap.live ≤ fuel) :
    ∃ after, decref owned fuel heap x = some after ∧ Shrinks heap after ∧ Balanced owned after held := by
  induction fuel generalizing heap held x with
  | zero =>
    obtain ⟨object, hx⟩ := h.released_alive
    have hlive := live_write hx none
    simp only [Option.elim_none] at hlive
    omega
  | succ fuel ih =>
    obtain ⟨object, hx⟩ := h.released_alive
    by_cases hlast : object.count ≤ 1
    · obtain ⟨hfreed, hshrinks, hlive⟩ := h.free hx hlast
      obtain ⟨after, hafter, hshrinks', hbalanced⟩ :=
        foldlM_spec ih (owned object.value) hfreed (by omega)
      exact ⟨after, by rw [decref, hx, Option.bind_some, if_pos hlast, hafter], hshrinks.trans hshrinks', hbalanced⟩
    · refine ⟨heap.write x (some { object with count := object.count - 1 }), ?_, adjust_shrinks hx _,
        h.adjust hx (by omega) ?_ fun y hy => ?_⟩
      · rw [decref, hx, Option.bind_some, if_neg hlast]
      · have hcount := h.count x object hx
        rw [List.count_singleton_self] at hcount
        omega
      · rw [List.count_singleton, if_neg (by simpa using Ne.symm hy), Nat.add_zero]

/-- Edges out of one vertex to vertices that do not lead back to it. -/
theorem wellFounded_edges {β : Type*} {r r' : β → β → Prop} (hr : WellFounded r) (p : β) (targets : β → Prop)
    (hback : ∀ q, targets q → ¬ ReflTransGen r q p)
    (h : ∀ a b, r' a b → r a b ∨ (a = p ∧ targets b)) : WellFounded r' := by
  have hup : ∀ z, ReflTransGen r z p → Acc r' z := by
    intro z
    induction z using hr.induction with
    | _ z ih =>
      refine fun hz => ⟨z, fun a ha => ?_⟩
      rcases h a z ha with haz | ⟨-, hq⟩
      · exact ih a haz (.head haz hz)
      · exact absurd hz (hback z hq)
  refine ⟨fun z => ?_⟩
  induction z using hr.induction with
  | _ z ih =>
    refine ⟨z, fun a ha => ?_⟩
    rcases h a z ha with haz | ⟨rfl, -⟩
    · exact ih a haz
    · exact hup a .refl

/-- Where no object owns itself, by whatever way, what is there is what is reached from the
references held. -/
theorem Balanced.alive_iff (h : Balanced owned heap held) (hwf : WellFounded (Owns owned heap)) (x : Nat) :
    (∃ object, heap.object x = some object) ↔
      ∃ root, 0 < held root ∧ ReflTransGen (Owns owned heap) root x := by
  constructor
  · induction x using hwf.induction with
    | _ x ih =>
      rintro ⟨object, hx⟩
      have hcount := h.count x object hx
      have hpos := h.positive x object hx
      by_cases hheld : 0 < held x
      · exact ⟨x, hheld, .refl⟩
      · obtain ⟨y, hy⟩ := owners_pos.mp (by omega : 0 < heap.owners owned x)
        obtain ⟨root, hroot, hpath⟩ := ih y hy ⟨_, hy.choose_spec.1⟩
        exact ⟨root, hroot, hpath.tail hy⟩
  · rintro ⟨root, hroot, hpath⟩
    induction hpath with
    | refl => exact h.alive (Nat.lt_of_lt_of_le hroot (Nat.le_add_right _ _))
    | tail _ hstep _ => exact h.owned_alive hstep

end Ownership
