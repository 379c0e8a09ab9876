import Mathlib.Data.List.Induction
import Mathlib.Data.List.Sort

/-! Insertion behind all elements that need not stand behind the new one. Elements
the order does not tell apart stay in the order of their insertion. -/

namespace StableInsertion

variable {α : Type*} {r : α → α → Prop} {s : Set α}

/-- `r a b` says that `a` has to stand before `b`. -/
structure WeakOrderOn (r : α → α → Prop) (s : Set α) : Prop where
  asymm : ∀ a ∈ s, ∀ b ∈ s, r a b → ¬ r b a
  negTrans : ∀ a ∈ s, ∀ b ∈ s, ∀ c ∈ s, ¬ r a b → ¬ r b c → ¬ r a c

def Ordered (r : α → α → Prop) (l : List α) : Prop := l.Pairwise fun a b => ¬ r b a

/-- The order does not tell them apart. -/
def Same (r : α → α → Prop) (a b : α) : Prop := ¬ r a b ∧ ¬ r b a

theorem Same.symm {a b : α} (h : Same r a b) : Same r b a := And.symm h

variable [DecidableRel r]

instance (a b : α) : Decidable (Same r a b) := inferInstanceAs (Decidable (_ ∧ _))

/-- The elements are inserted one after the other. -/
def insertAll (r : α → α → Prop) [DecidableRel r] (l as : List α) : List α :=
  as.foldl (fun l a => l.orderedInsert r a) l

theorem insertAll_concat (l as : List α) (a : α) :
    insertAll r l (as ++ [a]) = (insertAll r l as).orderedInsert r a := by
  simp [insertAll, List.foldl_append]

theorem perm_insertAll (l as : List α) : (insertAll r l as).Perm (as ++ l) := by
  induction as generalizing l with
  | nil => exact List.Perm.refl l
  | cons a as ih =>
    have hperm := (List.perm_orderedInsert r a l).append_left as
    exact (ih _).trans (hperm.trans List.perm_middle)

theorem mem_insertAll {as : List α} {x : α} : x ∈ insertAll r [] as ↔ x ∈ as := by
  rw [(perm_insertAll [] as).mem_iff, List.append_nil]

omit [DecidableRel r] in
theorem WeakOrderOn.behind (h : WeakOrderOn r s) {a b x : α} (ha : a ∈ s) (hb : b ∈ s) (hx : x ∈ s)
    (hab : r a b) (hxb : ¬ r x b) : r a x := by
  by_contra hax
  exact h.negTrans a ha x hx b hb hax hxb hab

theorem Ordered.orderedInsert (h : WeakOrderOn r s) {l : List α} (hl : ∀ x ∈ l, x ∈ s)
    {a : α} (ha : a ∈ s) (ho : Ordered r l) : Ordered r (l.orderedInsert r a) := by
  induction l with
  | nil => exact List.pairwise_singleton _ a
  | cons b l ih =>
    obtain ⟨hhead, htail⟩ := List.pairwise_cons.mp ho
    have hb := hl b List.mem_cons_self
    by_cases hab : r a b
    · rw [List.orderedInsert_cons_of_le r l hab]
      refine List.pairwise_cons.mpr ⟨fun x hx => ?_, ho⟩
      have hxs := hl x hx
      rcases List.mem_cons.mp hx with rfl | hx
      · exact h.asymm a ha x hxs hab
      · exact h.asymm a ha x hxs (h.behind ha hb hxs hab (hhead x hx))
    · rw [List.orderedInsert_of_not_le r l hab]
      refine List.pairwise_cons.mpr ⟨fun x hx => ?_, ih (fun x hx => hl x (List.mem_cons_of_mem b hx)) htail⟩
      rcases List.mem_cons.mp ((List.perm_orderedInsert r a l).mem_iff.mp hx) with rfl | hx
      · exact hab
      · exact hhead x hx

/-- The new element comes behind those it is not told apart from. -/
theorem filter_orderedInsert (h : WeakOrderOn r s) {l : List α} (hl : ∀ x ∈ l, x ∈ s)
    {a v : α} (ha : a ∈ s) (hv : v ∈ s) (ho : Ordered r l) :
    (l.orderedInsert r a).filter (Same r v) = (l ++ [a]).filter (Same r v) := by
  induction l with
  | nil => rfl
  | cons b l ih =>
    obtain ⟨hhead, htail⟩ := List.pairwise_cons.mp ho
    have hb := hl b List.mem_cons_self
    by_cases hab : r a b
    · have hbehind : ∀ x ∈ b :: l, r a x := by
        intro x hx
        have hxs := hl x hx
        rcases List.mem_cons.mp hx with rfl | hx
        · exact hab
        · exact h.behind ha hb hxs hab (hhead x hx)
      rw [List.orderedInsert_cons_of_le r l hab, List.filter_append]
      by_cases hva : Same r v a
      · have hnone : (b :: l).filter (Same r v) = [] := by
          refine List.filter_eq_nil_iff.mpr fun x hx hsame => ?_
          have hvx : Same r v x := of_decide_eq_true hsame
          exact h.negTrans a ha v hv x (hl x hx) hva.2 hvx.1 (hbehind x hx)
        rw [List.filter_cons_of_pos (by simpa using hva), hnone, List.filter_singleton]
        simp [hva]
      · rw [List.filter_cons_of_neg (by simpa using hva), List.filter_singleton]
        simp [hva]
    · rw [List.orderedInsert_of_not_le r l hab, List.cons_append, List.filter_cons, List.filter_cons,
        ih (fun x hx => hl x (List.mem_cons_of_mem b hx)) htail]

theorem ordered_insertAll (h : WeakOrderOn r s) {as : List α} (has : ∀ a ∈ as, a ∈ s) :
    Ordered r (insertAll r [] as) := by
  induction as using List.reverseRecOn with
  | nil => exact List.Pairwise.nil
  | append_singleton as a ih =>
    have hold := ih fun x hx => has x (List.mem_append_left _ hx)
    have hmem : ∀ x ∈ insertAll r [] as, x ∈ s :=
      fun x hx => has x (List.mem_append_left _ (mem_insertAll.mp hx))
    rw [insertAll_concat]
    exact hold.orderedInsert h hmem (has a (List.mem_append_right _ (List.mem_singleton_self a)))

/-- Insertion is stable. -/
theorem filter_insertAll (h : WeakOrderOn r s) {as : List α} (has : ∀ a ∈ as, a ∈ s) {v : α}
    (hv : v ∈ s) : (insertAll r [] as).filter (Same r v) = as.filter (Same r v) := by
  induction as using List.reverseRecOn with
  | nil => rfl
  | append_singleton as a ih =>
    have hold : ∀ x ∈ as, x ∈ s := fun x hx => has x (List.mem_append_left _ hx)
    have hmem : ∀ x ∈ insertAll r [] as, x ∈ s := fun x hx => hold x (mem_insertAll.mp hx)
    have ha := has a (List.mem_append_right _ (List.mem_singleton_self a))
    rw [insertAll_concat, filter_orderedInsert h hmem ha hv (ordered_insertAll h hold),
      List.filter_append, List.filter_append, ih hold]

omit [DecidableRel r] in
/-- Only one order is possible for elements that are all told apart. -/
theorem Ordered.unique {l m : List α} (hl : Ordered r l) (hm : Ordered r m) (hperm : l.Perm m)
    (happart : ∀ a ∈ l, ∀ b ∈ l, Same r a b → a = b) : l = m := by
  refine List.Perm.eq_of_pairwise (fun a b ha hb hab hba => ?_) hl hm hperm
  exact happart a ha b (hperm.mem_iff.mpr hb) ⟨hba, hab⟩

end StableInsertion
