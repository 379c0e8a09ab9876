import Mathlib.Data.List.Basic
import Mathlib.Data.Set.Basic

/-! Lists of representatives: the set of what is equivalent to one of their elements, and
the operations on sets as operations that leave no two elements equivalent. -/

namespace Representatives

variable {α : Type*} {r : α → α → Prop} {l l' : List α} {x y : α}

/-- All that is equivalent to an element. -/
def carrier (r : α → α → Prop) (l : List α) : Set α := {x | ∃ y ∈ l, r x y}

def Distinct (r : α → α → Prop) (l : List α) : Prop := l.Pairwise fun x y => ¬ r x y

def Inside (r : α → α → Prop) (l : List α) (x : α) : Prop := ∃ y ∈ l, r x y

instance [DecidableRel r] (l : List α) (x : α) : Decidable (Inside r l x) :=
  inferInstanceAs (Decidable (∃ y ∈ l, r x y))

theorem mem_carrier : x ∈ carrier r l ↔ Inside r l x := Iff.rfl

theorem carrier_nil : carrier r [] = ∅ := by
  ext x
  simp [carrier]

theorem inside_of_mem (h : Equivalence r) (hx : x ∈ l) : Inside r l x := ⟨x, hx, h.refl x⟩

theorem Inside.congr (h : Equivalence r) (hx : Inside r l x) (hxy : r x y) : Inside r l y := by
  obtain ⟨z, hz, hxz⟩ := hx
  exact ⟨z, hz, h.trans (h.symm hxy) hxz⟩

variable [DecidableRel r]

def insert (r : α → α → Prop) [DecidableRel r] (l : List α) (x : α) : List α :=
  if Inside r l x then l else l ++ [x]

def insertAll (r : α → α → Prop) [DecidableRel r] (l l' : List α) : List α := l'.foldl (insert r) l

def erase (r : α → α → Prop) [DecidableRel r] (l : List α) (x : α) : List α := l.eraseP fun y => r x y

/-- The elements of the first that are in the second. -/
def inter (r : α → α → Prop) [DecidableRel r] (l l' : List α) : List α := l.filter fun x => Inside r l' x

theorem insert_of_inside (h : Inside r l x) : insert r l x = l := if_pos h

theorem insert_of_not_inside (h : ¬ Inside r l x) : insert r l x = l ++ [x] := if_neg h

theorem carrier_insert (h : Equivalence r) (l : List α) (x : α) :
    carrier r (insert r l x) = carrier r l ∪ {y | r y x} := by
  ext y
  by_cases hx : Inside r l x
  · rw [insert_of_inside hx, Set.mem_union]
    exact ⟨.inl, fun hy => hy.elim id fun hyx => hx.congr h (h.symm hyx)⟩
  · rw [insert_of_not_inside hx]
    simp [carrier, or_and_right, exists_or]

theorem Distinct.insert (h : Equivalence r) (hl : Distinct r l) (x : α) : Distinct r (insert r l x) := by
  by_cases hx : Inside r l x
  · rwa [insert_of_inside hx]
  · rw [insert_of_not_inside hx]
    refine List.pairwise_append.mpr ⟨hl, List.pairwise_singleton _ x, fun y hy z hz hyz => hx ?_⟩
    obtain rfl := List.mem_singleton.mp hz
    exact ⟨y, hy, h.symm hyz⟩

theorem insert_of_distinct (h : Equivalence r) (hl : Distinct r (l ++ x :: l')) : insert r l x = l ++ [x] := by
  refine insert_of_not_inside ?_
  rintro ⟨y, hy, hxy⟩
  exact (List.pairwise_append.mp hl).2.2 y hy x List.mem_cons_self (h.symm hxy)

theorem length_le_insert (l : List α) (x : α) : l.length ≤ (insert r l x).length := by
  by_cases hx : Inside r l x
  · rw [insert_of_inside hx]
  · rw [insert_of_not_inside hx, List.length_append]
    exact Nat.le_add_right _ _

theorem length_le_insertAll (l l' : List α) : l.length ≤ (insertAll r l l').length := by
  induction l' generalizing l with
  | nil => exact Nat.le_refl _
  | cons x l' ih => exact (length_le_insert l x).trans (ih (insert r l x))

theorem carrier_insertAll (h : Equivalence r) (l l' : List α) :
    carrier r (insertAll r l l') = carrier r l ∪ carrier r l' := by
  induction l' generalizing l with
  | nil => rw [carrier_nil, Set.union_empty]; rfl
  | cons x l' ih =>
    have hcons : carrier r (x :: l') = {y | r y x} ∪ carrier r l' := by
      ext y
      simp [carrier]
    have hstep : insertAll r l (x :: l') = insertAll r (insert r l x) l' := rfl
    rw [hstep, ih, carrier_insert h, hcons, Set.union_assoc]

theorem Distinct.insertAll (h : Equivalence r) (hl : Distinct r l) (l' : List α) :
    Distinct r (insertAll r l l') := by
  induction l' generalizing l with
  | nil => exact hl
  | cons x l' ih => exact ih (hl.insert h x)

theorem Distinct.erase (hl : Distinct r l) (x : α) : Distinct r (erase r l x) :=
  hl.sublist List.eraseP_sublist

theorem carrier_erase (h : Equivalence r) (hl : Distinct r l) (x : α) :
    carrier r (erase r l x) = carrier r l \ {y | r y x} := by
  induction l with
  | nil =>
    ext y
    simp [carrier, Representatives.erase]
  | cons z l ih =>
    obtain ⟨hz, hl⟩ := List.pairwise_cons.mp hl
    ext y
    by_cases hxz : r x z
    · have herase : Representatives.erase r (z :: l) x = l := List.eraseP_cons_of_pos (by simpa using hxz)
      rw [herase]
      constructor
      · rintro ⟨w, hw, hyw⟩
        refine ⟨⟨w, List.mem_cons_of_mem z hw, hyw⟩, fun hyx : r y x => ?_⟩
        exact hz w hw (h.trans (h.symm hxz) (h.trans (h.symm hyx) hyw))
      · rintro ⟨⟨w, hw, hyw⟩, hyx⟩
        rcases List.mem_cons.mp hw with rfl | hw
        · exact absurd (h.trans hyw (h.symm hxz)) hyx
        · exact ⟨w, hw, hyw⟩
    · have herase : Representatives.erase r (z :: l) x = z :: Representatives.erase r l x :=
        List.eraseP_cons_of_neg (by simpa using hxz)
      have hcons : ∀ l : List α, y ∈ carrier r (z :: l) ↔ r y z ∨ y ∈ carrier r l := by
        intro l
        simp [carrier]
      rw [herase, Set.mem_sdiff, hcons, hcons, ih hl, Set.mem_sdiff]
      have hyz : r y z → ¬ r y x := fun hyz hyx => hxz (h.trans (h.symm hyx) hyz)
      constructor
      · rintro (hy | ⟨hy, hyx⟩)
        · exact ⟨.inl hy, hyz hy⟩
        · exact ⟨.inr hy, hyx⟩
      · rintro ⟨hy | hy, hyx⟩
        · exact .inl hy
        · exact .inr ⟨hy, hyx⟩

theorem Distinct.inter (hl : Distinct r l) (l' : List α) : Distinct r (inter r l l') :=
  hl.sublist List.filter_sublist

theorem carrier_inter (h : Equivalence r) (l l' : List α) :
    carrier r (inter r l l') = carrier r l ∩ carrier r l' := by
  ext y
  constructor
  · rintro ⟨z, hz, hyz⟩
    obtain ⟨hzl, hinside⟩ := List.mem_filter.mp hz
    exact ⟨⟨z, hzl, hyz⟩, (of_decide_eq_true hinside).congr h (h.symm hyz)⟩
  · rintro ⟨⟨z, hz, hyz⟩, hy⟩
    exact ⟨z, List.mem_filter.mpr ⟨hz, decide_eq_true (Inside.congr h hy hyz)⟩, hyz⟩

end Representatives
