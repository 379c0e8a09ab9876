import Mathlib.Data.Set.Basic
import Mathlib.Logic.Relation

/-! Marked vertices of a graph that is explored while edges are added to it. -/

namespace MarkedGraph

open Relation

variable {V : Type*} {M N L : Set V} {E F G : V → V → Prop} {root v : V}

/-- The edges out of marked vertices end in marked vertices. -/
def Closed (M : Set V) (E : V → V → Prop) : Prop := ∀ a ∈ M, ∀ b, E a b → b ∈ M

/-- No mark has been taken off, and no edge out of a marked vertex. -/
def Extends (M : Set V) (E : V → V → Prop) (N : Set V) (F : V → V → Prop) : Prop :=
  ∀ a ∈ M, a ∈ N ∧ ∀ b, E a b → F a b

/-- The vertices marked since are reached from this one. -/
def Explored (M N : Set V) (F : V → V → Prop) (root : V) : Prop :=
  ∀ x ∈ N, x ∉ M → ReflTransGen F root x

theorem Extends.refl (M : Set V) (E : V → V → Prop) : Extends M E M E := fun _ ha => ⟨ha, fun _ h => h⟩

theorem Extends.trans (h : Extends M E N F) (h' : Extends N F L G) : Extends M E L G := by
  intro a ha
  obtain ⟨hN, hF⟩ := h a ha
  obtain ⟨hL, hG⟩ := h' a hN
  exact ⟨hL, fun b hb => hG b (hF b hb)⟩

/-- A path among marked vertices is still one. -/
theorem Closed.path (hclosed : Closed M E) (hext : Extends M E N F) {a x : V} (ha : a ∈ M)
    (h : ReflTransGen E a x) : x ∈ M ∧ ReflTransGen F a x := by
  induction h with
  | refl => exact ⟨ha, .refl⟩
  | tail _ hedge ih =>
    obtain ⟨hmem, hpath⟩ := ih
    exact ⟨hclosed _ hmem _ hedge, hpath.tail ((hext _ hmem).2 _ hedge)⟩

/-- A vertex with an edge to one that has been explored from. -/
theorem Explored.step (h : Explored M N F root) (hclosed : Closed N F) (hroot : root ∈ N)
    (hext : Extends N F L G) (hrest : Explored N L G v) (hedge : G v root) : Explored M L G v := by
  intro x hx hnot
  by_cases hmem : x ∈ N
  · exact .head hedge (hclosed.path hext hroot (h x hmem hnot)).2
  · exact hrest x hx hmem

/-- What is marked is what is reached from the roots. -/
theorem Closed.mem_iff (hclosed : Closed M E) {roots : Set V} (hroots : roots ⊆ M)
    (hreached : ∀ x ∈ M, ∃ root ∈ roots, ReflTransGen E root x) (x : V) :
    x ∈ M ↔ ∃ root ∈ roots, ReflTransGen E root x := by
  refine ⟨hreached x, ?_⟩
  rintro ⟨root, hroot, hpath⟩
  exact (hclosed.path (Extends.refl M E) (hroots hroot) hpath).1

end MarkedGraph
