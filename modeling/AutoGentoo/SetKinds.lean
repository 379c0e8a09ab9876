import AutoGentoo.GuardedRun
import Mathlib.Data.List.Basic

/-! Operations on the sets of a program, for any kind of set: what they keep, and one kind
as the image of another. -/

namespace AutoGentoo

/-- The sets are given by their places among those made so far; `new`, `dup` and
`intersect` make another. -/
inductive SetOp
  | new (cmpFunc : Nat)
  | add (s element : Nat)
  | remove (s element : Nat)
  | union (s1 s2 : Nat)
  | dup (s : Nat)
  | intersect (s1 s2 : Nat)
  deriving DecidableEq, Repr

/-- What the operations are for one kind of set, given what tells elements equal. -/
structure SetKind (β : Type) where
  empty : β
  add : Nat → β → Nat → β
  remove : Nat → β → Nat → β
  union : Nat → β → β → β
  inter : Nat → β → β → β

/-- Sets made with different functions have neither union nor intersection. -/
def SetKind.apply {β : Type} (kind : SetKind β) (sets : List (Nat × β)) : SetOp → List (Nat × β)
  | .new c => sets ++ [(c, kind.empty)]
  | .add i x => sets[i]?.elim sets fun a => sets.set i (a.1, kind.add a.1 a.2 x)
  | .remove i x => sets[i]?.elim sets fun a => sets.set i (a.1, kind.remove a.1 a.2 x)
  | .union i j => sets[i]?.elim sets fun a => sets[j]?.elim sets fun b =>
      if a.1 = b.1 then sets.set i (a.1, kind.union a.1 a.2 b.2) else sets
  | .dup i => sets[i]?.elim sets fun a => sets ++ [a]
  | .intersect i j => sets[i]?.elim sets fun a => sets[j]?.elim sets fun b =>
      if a.1 = b.1 then sets ++ [(a.1, kind.inter a.1 a.2 b.2)] else sets

/-- The sets are there. -/
def PlacesOk {β : Type} (sets : List (Nat × β)) : SetOp → Prop
  | .new _ => True
  | .add i _ | .remove i _ | .dup i => i < sets.length
  | .union i j | .intersect i j => i < sets.length ∧ j < sets.length

instance PlacesOk.decidable {β : Type} (sets : List (Nat × β)) : (op : SetOp) → Decidable (PlacesOk sets op)
  | .new _ => isTrue trivial
  | .add i _ | .remove i _ | .dup i => inferInstanceAs (Decidable (i < sets.length))
  | .union i j | .intersect i j => inferInstanceAs (Decidable (i < sets.length ∧ j < sets.length))

/-- The operations keep a property of the sets and their function. -/
structure SetKind.Keeps {β : Type} (kind : SetKind β) (P : Nat → β → Prop) : Prop where
  empty : ∀ c, P c kind.empty
  add : ∀ {c a}, P c a → ∀ x, P c (kind.add c a x)
  remove : ∀ {c a}, P c a → ∀ x, P c (kind.remove c a x)
  union : ∀ {c a b}, P c a → P c b → P c (kind.union c a b)
  inter : ∀ {c a b}, P c a → P c b → P c (kind.inter c a b)

/-- One kind as an image of another, where a property holds. -/
structure SetKind.Image {β γ : Type} (kind : SetKind β) (kind' : SetKind γ) (P : Nat → β → Prop)
    (f : Nat → β → γ) : Prop where
  empty : ∀ c, kind'.empty = f c kind.empty
  add : ∀ {c a}, P c a → ∀ x, kind'.add c (f c a) x = f c (kind.add c a x)
  remove : ∀ {c a}, P c a → ∀ x, kind'.remove c (f c a) x = f c (kind.remove c a x)
  union : ∀ {c a b}, P c a → P c b → kind'.union c (f c a) (f c b) = f c (kind.union c a b)
  inter : ∀ {c a b}, P c a → P c b → kind'.inter c (f c a) (f c b) = f c (kind.inter c a b)

namespace SetKind

variable {β γ : Type} {kind : SetKind β} {kind' : SetKind γ} {P : Nat → β → Prop} {f : Nat → β → γ}
  {sets : List (Nat × β)} {i j c : Nat} {a b : β}

theorem exists_get (h : i < sets.length) : ∃ c a, sets[i]? = some (c, a) :=
  ⟨sets[i].1, sets[i].2, List.getElem?_eq_getElem h⟩

theorem apply_add (hi : sets[i]? = some (c, a)) (x : Nat) :
    kind.apply sets (.add i x) = sets.set i (c, kind.add c a x) := by rw [apply, hi, Option.elim_some]

theorem apply_remove (hi : sets[i]? = some (c, a)) (x : Nat) :
    kind.apply sets (.remove i x) = sets.set i (c, kind.remove c a x) := by rw [apply, hi, Option.elim_some]

theorem apply_dup (hi : sets[i]? = some (c, a)) : kind.apply sets (.dup i) = sets ++ [(c, a)] := by
  rw [apply, hi, Option.elim_some]

theorem apply_union (hi : sets[i]? = some (c, a)) (hj : sets[j]? = some (c, b)) :
    kind.apply sets (.union i j) = sets.set i (c, kind.union c a b) := by
  rw [apply, hi, Option.elim_some, hj, Option.elim_some, if_pos rfl]

theorem apply_intersect (hi : sets[i]? = some (c, a)) (hj : sets[j]? = some (c, b)) :
    kind.apply sets (.intersect i j) = sets ++ [(c, kind.inter c a b)] := by
  rw [apply, hi, Option.elim_some, hj, Option.elim_some, if_pos rfl]

theorem apply_union_other {c' : Nat} (hi : sets[i]? = some (c, a)) (hj : sets[j]? = some (c', b)) (hne : c ≠ c') :
    kind.apply sets (.union i j) = sets := by
  rw [apply, hi, Option.elim_some, hj, Option.elim_some, if_neg hne]

theorem apply_intersect_other {c' : Nat} (hi : sets[i]? = some (c, a)) (hj : sets[j]? = some (c', b))
    (hne : c ≠ c') : kind.apply sets (.intersect i j) = sets := by
  rw [apply, hi, Option.elim_some, hj, Option.elim_some, if_neg hne]

theorem Keeps.apply (hkeeps : kind.Keeps P) (h : ∀ a ∈ sets, P a.1 a.2) {op : SetOp} (hok : PlacesOk sets op) :
    ∀ a ∈ kind.apply sets op, P a.1 a.2 := by
  have hset : ∀ i c a, P c a → ∀ b ∈ sets.set i (c, a), P b.1 b.2 := by
    intro i c a ha b hb
    rcases List.mem_or_eq_of_mem_set hb with hb | rfl
    · exact h b hb
    · exact ha
  have happend : ∀ c a, P c a → ∀ b ∈ sets ++ [(c, a)], P b.1 b.2 := by
    intro c a ha b hb
    rcases List.mem_append.mp hb with hb | hb
    · exact h b hb
    · rwa [List.mem_singleton.mp hb]
  have hat : ∀ {i c : Nat} {a : β}, sets[i]? = some (c, a) → P c a := fun hi => h _ (List.mem_of_getElem? hi)
  cases op with
  | new c => exact happend c kind.empty (hkeeps.empty c)
  | add i x =>
    obtain ⟨c, a, hi⟩ := exists_get hok
    rw [apply_add hi]
    exact hset i c _ (hkeeps.add (hat hi) x)
  | remove i x =>
    obtain ⟨c, a, hi⟩ := exists_get hok
    rw [apply_remove hi]
    exact hset i c _ (hkeeps.remove (hat hi) x)
  | union i j =>
    obtain ⟨c, a, hi⟩ := exists_get hok.1
    obtain ⟨c', b, hj⟩ := exists_get hok.2
    by_cases hcc : c = c'
    · subst hcc
      rw [apply_union hi hj]
      exact hset i c _ (hkeeps.union (hat hi) (hat hj))
    · rwa [apply_union_other hi hj hcc]
  | dup i =>
    obtain ⟨c, a, hi⟩ := exists_get hok
    rw [apply_dup hi]
    exact happend c a (hat hi)
  | intersect i j =>
    obtain ⟨c, a, hi⟩ := exists_get hok.1
    obtain ⟨c', b, hj⟩ := exists_get hok.2
    by_cases hcc : c = c'
    · subst hcc
      rw [apply_intersect hi hj]
      exact happend c _ (hkeeps.inter (hat hi) (hat hj))
    · rwa [apply_intersect_other hi hj hcc]

theorem Image.apply (himage : kind.Image kind' P f) (h : ∀ a ∈ sets, P a.1 a.2) {op : SetOp}
    (hok : PlacesOk sets op) : kind'.apply (sets.map fun a => (a.1, f a.1 a.2)) op =
      (kind.apply sets op).map fun a => (a.1, f a.1 a.2) := by
  have hat : ∀ {i c : Nat} {a : β}, sets[i]? = some (c, a) → P c a := fun hi => h _ (List.mem_of_getElem? hi)
  have hmap : ∀ {i c : Nat} {a : β}, sets[i]? = some (c, a) →
      (sets.map fun a => (a.1, f a.1 a.2))[i]? = some (c, f c a) := by
    intro i c a hi
    rw [List.getElem?_map, hi, Option.map_some]
  cases op with
  | new c => rw [SetKind.apply, SetKind.apply, List.map_append, List.map_singleton, himage.empty c]
  | add i x =>
    obtain ⟨c, a, hi⟩ := exists_get hok
    rw [apply_add hi, apply_add (hmap hi), List.map_set, himage.add (hat hi)]
  | remove i x =>
    obtain ⟨c, a, hi⟩ := exists_get hok
    rw [apply_remove hi, apply_remove (hmap hi), List.map_set, himage.remove (hat hi)]
  | union i j =>
    obtain ⟨c, a, hi⟩ := exists_get hok.1
    obtain ⟨c', b, hj⟩ := exists_get hok.2
    by_cases hcc : c = c'
    · subst hcc
      rw [apply_union hi hj, apply_union (hmap hi) (hmap hj), List.map_set, himage.union (hat hi) (hat hj)]
    · rw [apply_union_other hi hj hcc, apply_union_other (hmap hi) (hmap hj) hcc]
  | dup i =>
    obtain ⟨c, a, hi⟩ := exists_get hok
    rw [apply_dup hi, apply_dup (hmap hi), List.map_append, List.map_singleton]
  | intersect i j =>
    obtain ⟨c, a, hi⟩ := exists_get hok.1
    obtain ⟨c', b, hj⟩ := exists_get hok.2
    by_cases hcc : c = c'
    · subst hcc
      rw [apply_intersect hi hj, apply_intersect (hmap hi) (hmap hj), List.map_append, List.map_singleton,
        himage.inter (hat hi) (hat hj)]
    · rw [apply_intersect_other hi hj hcc, apply_intersect_other (hmap hi) (hmap hj) hcc]

theorem Image.run (hkeeps : kind.Keeps P) (himage : kind.Image kind' P f) (ops : List SetOp)
    (hok : GuardedRun.AllOk (fun sets op => some (kind.apply sets op)) PlacesOk [] ops) :
    ops.foldl kind'.apply [] = (ops.foldl kind.apply []).map fun a => (a.1, f a.1 a.2) := by
  let R : List (Nat × β) → List (Nat × γ) → Prop := fun sets sets' =>
    (∀ a ∈ sets, P a.1 a.2) ∧ sets' = sets.map fun a => (a.1, f a.1 a.2)
  have hstep : ∀ {sets sets' op}, R sets sets' → PlacesOk sets op →
      R (kind.apply sets op) (kind'.apply sets' op) := by
    rintro sets sets' op ⟨hkept, rfl⟩ hop
    exact ⟨hkeeps.apply hkept hop, himage.apply hkept hop⟩
  have hnil : R [] [] := ⟨by simp, rfl⟩
  exact (GuardedRun.foldl_simulates hstep hnil ops hok).2

end SetKind

end AutoGentoo
