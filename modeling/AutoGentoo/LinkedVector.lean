import Mathlib.Data.List.Nodup
import Mathlib.Data.List.Count
import Mathlib.Logic.Function.Basic

/-! Linked vectors of objects that are counted, in a memory where what has been
freed is gone: nothing is read there. -/

namespace AutoGentoo

/-- The fields of a LinkedNode are addresses; 0 is NULL. -/
structure LinkedNode where
  data : Nat
  prev : Nat
  next : Nat
  deriving DecidableEq, Repr

/-- A RefObject with what it holds besides the count. -/
structure RefObject (α : Type) where
  referenceCount : Nat
  value : α
  deriving DecidableEq, Repr

/-- What is allocated. -/
structure Memory (α : Type) where
  nodes : Nat → Option LinkedNode
  objects : Nat → Option (RefObject α)

structure LinkedVector where
  head : Nat
  tail : Nat
  deriving DecidableEq, Repr

namespace Memory

variable {α : Type}

def setNode (self : Memory α) (x : Nat) (node : Option LinkedNode) : Memory α :=
  { self with nodes := Function.update self.nodes x node }

def setObject (self : Memory α) (x : Nat) (object : Option (RefObject α)) : Memory α :=
  { self with objects := Function.update self.objects x object }

/-- `OBJECT_INCREF`; there is no result where it reads freed memory. -/
def incref (self : Memory α) (x : Nat) : Option (Memory α) :=
  if x = 0 then some self
  else (self.objects x).map fun object =>
    self.setObject x (some { object with referenceCount := object.referenceCount + 1 })

def decref (self : Memory α) (x : Nat) : Option (Memory α) :=
  if x = 0 then some self
  else (self.objects x).map fun object =>
    if object.referenceCount = 0 ∨ object.referenceCount - 1 = 0 then self.setObject x none
    else self.setObject x (some { object with referenceCount := object.referenceCount - 1 })

/-- An address `malloc` may return. -/
def Fresh (self : Memory α) (x : Nat) : Prop :=
  x ≠ 0 ∧ self.nodes x = none ∧ self.objects x = none

/-- `linked_node_new`, where `malloc` returns `x`. -/
def linkedNodeNew (self : Memory α) (x object : Nat) : Option (Memory α) :=
  (self.incref object).map fun self =>
    self.setNode x (some { data := object, prev := 0, next := 0 })

def linkedNodeFree (self : Memory α) (x : Nat) : Option (Memory α) :=
  (self.nodes x).bind fun node => (self.decref node.data).map fun self => self.setNode x none

end Memory

namespace LinkedVector

variable {α : Type}

/-- `linked_vector_new` leaves the tail as it finds it. -/
def new (tail : Nat) : LinkedVector := { head := 0, tail := tail }

/-- `linked_vector_append`, where `malloc` returns `x` for the node. -/
def append (self : LinkedVector) (memory : Memory α) (x data : Nat) :
    Option (Memory α × LinkedVector) :=
  (memory.linkedNodeNew x data).bind fun memory =>
    if self.head = 0 ∨ self.tail = 0 then some (memory, { head := x, tail := x })
    else
      (memory.nodes self.tail).bind fun last =>
        let memory := memory.setNode self.tail (some { last with next := x })
        (memory.nodes x).map fun node =>
          (memory.setNode x (some { node with prev := self.tail }), { self with tail := x })

/-- `linked_vector_prepend`, with `x` for the node. -/
def prepend (self : LinkedVector) (memory : Memory α) (x data : Nat) :
    Option (Memory α × LinkedVector) :=
  (memory.linkedNodeNew x data).bind fun memory =>
    if self.head = 0 ∨ self.tail = 0 then some (memory, { head := x, tail := x })
    else
      (memory.nodes self.head).bind fun first =>
        let memory := memory.setNode self.head (some { first with prev := x })
        (memory.nodes x).map fun node =>
          (memory.setNode x (some { node with next := self.head }), { self with head := x })

def queueAdd (self : LinkedVector) (memory : Memory α) (x data : Nat) :
    Option (Memory α × LinkedVector) := self.append memory x data

/-- The address popped, and what is left. -/
def queuePop (self : LinkedVector) (memory : Memory α) : Option (Nat × Memory α × LinkedVector) :=
  if self.head = 0 then some (0, memory, self)
  else
    (memory.nodes self.head).bind fun node =>
      (memory.incref node.data).bind fun memory =>
        (memory.linkedNodeFree self.head).map fun memory =>
          (node.data, memory, { self with head := node.next })

def stackAdd (self : LinkedVector) (memory : Memory α) (x data : Nat) :
    Option (Memory α × LinkedVector) := self.prepend memory x data

def stackPop (self : LinkedVector) (memory : Memory α) : Option (Nat × Memory α × LinkedVector) :=
  if self.head = 0 then some (0, memory, self)
  else
    (memory.nodes self.head).bind fun node =>
      (memory.incref node.data).bind fun memory =>
        (memory.nodes self.head).bind fun next =>
          (memory.linkedNodeFree self.head).map fun memory =>
            (node.data, memory, { self with head := next.next })

def queuePeek (self : LinkedVector) (memory : Memory α) : Option Nat :=
  if self.head = 0 then some 0 else (memory.nodes self.head).map LinkedNode.data

end LinkedVector

/-! ### What a vector holds -/

/-- The nodes from an address on, each with its data, up to NULL. -/
def Chain (nodes : Nat → Option LinkedNode) : Nat → List (Nat × Nat) → Prop
  | p, [] => p = 0
  | p, entry :: rest => p = entry.1 ∧ p ≠ 0 ∧
      ∃ node, nodes p = some node ∧ node.data = entry.2 ∧ Chain nodes node.next rest

/-- The list is all there is from this address on. -/
theorem Chain.unique {nodes : Nat → Option LinkedNode} {p : Nat} {l l' : List (Nat × Nat)}
    (h : Chain nodes p l) (h' : Chain nodes p l') : l = l' := by
  induction l generalizing p l' with
  | nil =>
    cases l' with
    | nil => rfl
    | cons entry rest => exact absurd h h'.2.1
  | cons entry rest ih =>
    cases l' with
    | nil => exact absurd h' h.2.1
    | cons entry' rest' =>
      obtain ⟨hp, -, node, hnode, hdata, hrest⟩ := h
      obtain ⟨hp', -, node', hnode', hdata', hrest'⟩ := h'
      obtain rfl := Option.some.inj (hnode.symm.trans hnode')
      rw [ih hrest hrest', Prod.ext (hp.symm.trans hp') (hdata.symm.trans hdata')]

theorem Chain.congr {nodes nodes' : Nat → Option LinkedNode} {p : Nat} {l : List (Nat × Nat)}
    (h : Chain nodes p l) (hsame : ∀ x ∈ l.map Prod.fst, nodes' x = nodes x) : Chain nodes' p l := by
  induction l generalizing p with
  | nil => exact h
  | cons entry rest ih =>
    obtain ⟨hp, hne, node, hnode, hdata, hrest⟩ := h
    refine ⟨hp, hne, node, ?_, hdata, ih hrest fun x hx => hsame x (List.mem_cons_of_mem _ hx)⟩
    rw [hsame p (hp ▸ List.mem_cons_self), hnode]

/-- A chain goes on over its nodes whatever becomes of their links back. -/
theorem Chain.of_links {nodes nodes' : Nat → Option LinkedNode} {p : Nat} {l : List (Nat × Nat)}
    (h : Chain nodes p l) (hlinks : ∀ x ∈ l.map Prod.fst, ∀ node, nodes x = some node →
      ∃ prev, nodes' x = some { node with prev := prev }) : Chain nodes' p l := by
  induction l generalizing p with
  | nil => exact h
  | cons entry rest ih =>
    obtain ⟨hp, hne, node, hnode, hdata, hrest⟩ := h
    obtain ⟨prev, hprev⟩ := hlinks p (hp ▸ List.mem_cons_self) node hnode
    exact ⟨hp, hne, _, hprev, hdata, ih hrest fun x hx => hlinks x (List.mem_cons_of_mem _ hx)⟩

theorem Chain.node {nodes : Nat → Option LinkedNode} {p : Nat} {l : List (Nat × Nat)}
    (h : Chain nodes p l) {x : Nat} (hx : x ∈ l.map Prod.fst) :
    x ≠ 0 ∧ ∃ node, nodes x = some node := by
  induction l generalizing p with
  | nil => exact absurd hx (by simp)
  | cons entry rest ih =>
    obtain ⟨hp, hne, node, hnode, -, hrest⟩ := h
    rcases List.mem_cons.mp hx with rfl | hx
    · exact hp ▸ ⟨hne, node, hnode⟩
    · exact ih hrest hx

theorem Chain.concat {nodes nodes' : Nat → Option LinkedNode} {p x : Nat} {l : List (Nat × Nat)}
    (h : Chain nodes p l) (hnodup : (l.map Prod.fst).Nodup) {last : Nat × Nat}
    (hlast : last ∈ l.getLast?)
    (hold : ∀ y ∈ l.map Prod.fst, y ≠ last.1 → nodes' y = nodes y)
    (hlink : nodes' last.1 = (nodes last.1).map fun node => { node with next := x })
    (node : LinkedNode) (hnew : Chain nodes' x [(x, node.data)]) :
    Chain nodes' p (l ++ [(x, node.data)]) := by
  induction l generalizing p with
  | nil => exact absurd hlast (by simp)
  | cons entry rest ih =>
    obtain ⟨hp, hne, first, hfirst, hdata, hrest⟩ := h
    rw [List.map_cons, List.nodup_cons] at hnodup
    cases rest with
    | nil =>
      obtain rfl : entry = last := by simpa using hlast
      refine ⟨hp, hne, { first with next := x }, ?_, hdata, hnew⟩
      rw [hp, hlink, ← hp, hfirst, Option.map_some]
    | cons second rest =>
      rw [List.getLast?_cons_cons] at hlast
      have hmem : last.1 ∈ (second :: rest).map Prod.fst :=
        List.mem_map_of_mem (List.mem_of_getLast? hlast)
      have hentry : entry.1 ≠ last.1 := fun he => hnodup.1 (he ▸ hmem)
      refine ⟨hp, hne, first, ?_, hdata, ?_⟩
      · rw [hp, hold entry.1 List.mem_cons_self hentry, ← hp, hfirst]
      · exact ih hrest hnodup.2 hlast fun y hy => hold y (List.mem_cons_of_mem _ hy)

namespace Memory

variable {α : Type}

/-- The objects differ in their counts alone. -/
def SameValues (self other : Memory α) : Prop :=
  ∀ x, (other.objects x).map RefObject.value = (self.objects x).map RefObject.value

theorem SameValues.trans {a b c : Memory α} (h : a.SameValues b) (h' : b.SameValues c) :
    a.SameValues c := fun x => (h' x).trans (h x)

theorem SameValues.live {self other : Memory α} (h : self.SameValues other) (x : Nat) :
    (other.objects x).isSome = (self.objects x).isSome := by
  rw [← Option.isSome_map (f := RefObject.value), h x, Option.isSome_map]

/-- Every object has a count of what refers to it. -/
def Counted (self : Memory α) (references : Nat → Nat) : Prop :=
  self.objects 0 = none ∧
    ∀ x object, self.objects x = some object → object.referenceCount = references x

theorem setObject_self (self : Memory α) (x : Nat) (object : Option (RefObject α)) :
    (self.setObject x object).objects x = object := by
  simp [setObject]

theorem setObject_ne (self : Memory α) {x y : Nat} (h : y ≠ x) (object : Option (RefObject α)) :
    (self.setObject x object).objects y = self.objects y := by
  simp [setObject, h]

theorem setNode_self (self : Memory α) (x : Nat) (node : Option LinkedNode) :
    (self.setNode x node).nodes x = node := by
  simp [setNode]

theorem setNode_ne (self : Memory α) {x y : Nat} (h : y ≠ x) (node : Option LinkedNode) :
    (self.setNode x node).nodes y = self.nodes y := by
  simp [setNode, h]

theorem Counted.null {self : Memory α} {references : Nat → Nat} (h : self.Counted references)
    (n : Nat) : self.Counted (Function.update references 0 n) := by
  refine ⟨h.1, fun y object hy => ?_⟩
  have hne : y ≠ 0 := by
    rintro rfl
    rw [h.1] at hy
    exact absurd hy (by simp)
  rw [Function.update_of_ne hne, h.2 y object hy]

theorem Counted.set {self : Memory α} {references : Nat → Nat} (h : self.Counted references) {x : Nat}
    (hx : x ≠ 0) {object : RefObject α} (hobject : self.objects x = some object) (n : Nat) :
    self.SameValues (self.setObject x (some { object with referenceCount := n })) ∧
      (self.setObject x (some { object with referenceCount := n })).Counted
        (Function.update references x n) := by
  refine ⟨fun y => ?_, ?_, fun y other hy => ?_⟩
  · by_cases hyx : y = x
    · rw [hyx, setObject_self, hobject, Option.map_some, Option.map_some]
    · rw [setObject_ne _ hyx]
  · rw [setObject_ne _ hx.symm, h.1]
  · by_cases hyx : y = x
    · rw [hyx, setObject_self] at hy
      rw [hyx, ← Option.some.inj hy, Function.update_self]
    · rw [setObject_ne _ hyx] at hy
      rw [Function.update_of_ne hyx, h.2 y other hy]

theorem incref_nodes {self other : Memory α} {x : Nat} (h : self.incref x = some other) :
    other.nodes = self.nodes := by
  rw [incref] at h
  split_ifs at h
  · rw [Option.some.inj h]
  · obtain ⟨object, -, rfl⟩ := Option.map_eq_some_iff.mp h
    rfl

theorem incref_spec {self : Memory α} {references : Nat → Nat} (h : self.Counted references) {x : Nat}
    (hx : x ≠ 0 → (self.objects x).isSome = true) :
    ∃ other, self.incref x = some other ∧ other.nodes = self.nodes ∧ self.SameValues other ∧
      other.Counted (Function.update references x (references x + 1)) := by
  rw [incref]
  split_ifs with hzero
  · exact ⟨self, rfl, rfl, fun _ => rfl, hzero ▸ h.null _⟩
  · obtain ⟨object, hobject⟩ := Option.isSome_iff_exists.mp (hx hzero)
    refine ⟨self.setObject x (some { object with referenceCount := object.referenceCount + 1 }),
      by rw [hobject, Option.map_some], rfl, ?_⟩
    rw [← h.2 x object hobject]
    exact h.set hzero hobject _

theorem decref_spec {self : Memory α} {references : Nat → Nat} (h : self.Counted references) {x : Nat}
    (hx : x ≠ 0 → (self.objects x).isSome = true) (hmore : x ≠ 0 → 2 ≤ references x) :
    ∃ other, self.decref x = some other ∧ other.nodes = self.nodes ∧ self.SameValues other ∧
      other.Counted (Function.update references x (references x - 1)) := by
  rw [decref]
  split_ifs with hzero
  · exact ⟨self, rfl, rfl, fun _ => rfl, hzero ▸ h.null _⟩
  · obtain ⟨object, hobject⟩ := Option.isSome_iff_exists.mp (hx hzero)
    have hcount := h.2 x object hobject
    have htwo := hmore hzero
    have hstays : ¬ (object.referenceCount = 0 ∨ object.referenceCount - 1 = 0) := by omega
    refine ⟨self.setObject x (some { object with referenceCount := object.referenceCount - 1 }),
      by rw [hobject, Option.map_some, if_neg hstays], rfl, ?_⟩
    rw [← hcount]
    exact h.set hzero hobject _

end Memory

namespace LinkedVector

variable {α : Type}

/-- The chain of nodes from the head, whatever the tail of an empty vector is; every
object is referred to from outside and once for each node that has it. -/
structure Holds (vector : LinkedVector) (memory : Memory α) (outside : Nat → Nat)
    (l : List (Nat × Nat)) : Prop where
  chain : Chain memory.nodes vector.head l
  nodup : (l.map Prod.fst).Nodup
  tail : ∀ last ∈ l.getLast?, vector.tail = last.1
  counted : memory.Counted fun x => outside x + (l.map Prod.snd).count x
  live : ∀ x ∈ l.map Prod.snd, x ≠ 0 → (memory.objects x).isSome = true

variable {self : LinkedVector} {memory : Memory α} {outside : Nat → Nat} {l : List (Nat × Nat)}

theorem Holds.head_eq_zero (h : self.Holds memory outside l) : self.head = 0 ↔ l = [] := by
  have hchain := h.chain
  cases l with
  | nil => exact ⟨fun _ => rfl, fun _ => hchain⟩
  | cons entry rest => exact ⟨fun hzero => absurd hzero hchain.2.1, fun hnil => absurd hnil (by simp)⟩

theorem Holds.counted_add {other : Memory α} {data : Nat} {entries : List (Nat × Nat)}
    (hcounted : other.Counted (Function.update (fun y => outside y + (l.map Prod.snd).count y) data
      (outside data + (l.map Prod.snd).count data + 1)))
    (hperm : (entries.map Prod.snd).Perm (data :: l.map Prod.snd)) :
    other.Counted fun y => outside y + (entries.map Prod.snd).count y := by
  refine ⟨hcounted.1, fun y object hy => ?_⟩
  simp only [hcounted.2 y object hy, hperm.count_eq]
  by_cases hyd : y = data
  · rw [hyd, Function.update_self, List.count_cons_self]
    omega
  · rw [Function.update_of_ne hyd, List.count_cons_of_ne (Ne.symm hyd)]

/-- A new node is no node of the vector, and holds its object. -/
theorem Holds.newNode (h : self.Holds memory outside l) {x data : Nat} (hx : memory.Fresh x)
    (hdata : data ≠ 0 → (memory.objects data).isSome = true) :
    ∃ counted, memory.linkedNodeNew x data =
        some (counted.setNode x (some { data := data, prev := 0, next := 0 })) ∧
      counted.nodes = memory.nodes ∧ memory.SameValues counted ∧
      counted.Counted (Function.update (fun y => outside y + (l.map Prod.snd).count y) data
        (outside data + (l.map Prod.snd).count data + 1)) ∧
      x ∉ l.map Prod.fst ∧
      ∀ y ∈ data :: l.map Prod.snd, y ≠ 0 → (counted.objects y).isSome = true := by
  obtain ⟨counted, hincref, hnodes, hvalues, hcounted⟩ := Memory.incref_spec h.counted hdata
  refine ⟨counted, by rw [Memory.linkedNodeNew, hincref, Option.map_some], hnodes, hvalues, hcounted,
    fun hmem => ?_, fun y hy hne => ?_⟩
  · obtain ⟨-, node, hsome⟩ := h.chain.node hmem
    exact absurd (hx.2.1.symm.trans hsome) (by simp)
  · rw [hvalues.live]
    rcases List.mem_cons.mp hy with rfl | hy
    · exact hdata hne
    · exact h.live y hy hne

/-- Head and tail are NULL for no vector but the empty one. -/
theorem Holds.ends (h : self.Holds memory outside l) (hnil : l ≠ []) :
    ¬ (self.head = 0 ∨ self.tail = 0) := by
  obtain ⟨last, hlast⟩ := Option.ne_none_iff_exists'.mp (mt List.getLast?_eq_none_iff.mp hnil)
  obtain ⟨hne, -⟩ := h.chain.node (List.mem_map_of_mem (List.mem_of_getLast? hlast))
  rw [h.tail last hlast, h.head_eq_zero]
  exact fun hor => hor.elim hnil hne

theorem holds_single {other : Memory α} {x data : Nat} {node : LinkedNode} (hx : x ≠ 0)
    (hdata : node.data = data) (hnext : node.next = 0)
    (hcounted : other.Counted fun y => outside y + ([(x, data)].map Prod.snd).count y)
    (hlive : ∀ y ∈ [data], y ≠ 0 → (other.objects y).isSome = true) :
    Holds { head := x, tail := x } (other.setNode x (some node)) outside [(x, data)] :=
  ⟨⟨rfl, hx, node, Memory.setNode_self _ _ _, hdata, hnext⟩, List.nodup_singleton x,
    fun _ hlast => congrArg Prod.fst (Option.some.inj hlast), hcounted, hlive⟩

theorem Holds.append (h : self.Holds memory outside l) {x data : Nat} (hx : memory.Fresh x)
    (hdata : data ≠ 0 → (memory.objects data).isSome = true) :
    ∃ other v, self.append memory x data = some (other, v) ∧ memory.SameValues other ∧
      v.Holds other outside (l ++ [(x, data)]) := by
  obtain ⟨counted, hadded, hnodes, hvalues, hcounted, hfresh, hlive⟩ := h.newNode hx hdata
  let new : LinkedNode := { data := data, prev := 0, next := 0 }
  have hperm : ((l ++ [(x, data)]).map Prod.snd).Perm (data :: l.map Prod.snd) := by
    rw [List.map_append]
    exact List.perm_append_singleton data _
  rw [LinkedVector.append, hadded, Option.bind_some]
  by_cases hnil : l = []
  · subst hnil
    rw [if_pos (.inl (h.head_eq_zero.mpr rfl))]
    exact ⟨_, _, rfl, hvalues, holds_single hx.1 rfl rfl (Holds.counted_add hcounted hperm) hlive⟩
  · obtain ⟨last, hlast⟩ := Option.ne_none_iff_exists'.mp (mt List.getLast?_eq_none_iff.mp hnil)
    have htail : self.tail = last.1 := h.tail last hlast
    have hmem : last.1 ∈ l.map Prod.fst := List.mem_map_of_mem (List.mem_of_getLast? hlast)
    obtain ⟨-, node, hlastNode⟩ := h.chain.node hmem
    have hxne : last.1 ≠ x := fun he => hfresh (he ▸ hmem)
    rw [if_neg (h.ends hnil), htail, Memory.setNode_ne _ hxne, hnodes, hlastNode, Option.bind_some]
    simp only [Memory.setNode_ne _ hxne.symm, Memory.setNode_self, Option.map_some]
    refine ⟨_, _, rfl, hvalues, ?_, ?_, ?_, Holds.counted_add hcounted hperm, fun y hy => ?_⟩
    · refine h.chain.concat h.nodup hlast (fun y hy hyl => ?_) ?_ new ?_
      · have hyx : y ≠ x := fun he => hfresh (he ▸ hy)
        rw [Memory.setNode_ne _ hyx, Memory.setNode_ne _ hyl, Memory.setNode_ne _ hyx, hnodes]
      · rw [Memory.setNode_ne _ hxne, Memory.setNode_self, hlastNode, Option.map_some]
      · exact ⟨rfl, hx.1, _, Memory.setNode_self _ _ _, rfl, rfl⟩
    · rw [List.map_append, List.map_singleton]
      exact List.Nodup.append h.nodup (List.nodup_singleton x)
        fun y hy hyx => hfresh ((List.mem_singleton.mp hyx : y = x) ▸ hy)
    · intro end' hend
      rw [List.getLast?_append, List.getLast?_singleton, Option.some_or] at hend
      exact congrArg Prod.fst (Option.some.inj hend)
    · exact hlive y (hperm.mem_iff.mp hy)

theorem Holds.prepend (h : self.Holds memory outside l) {x data : Nat} (hx : memory.Fresh x)
    (hdata : data ≠ 0 → (memory.objects data).isSome = true) :
    ∃ other v, self.prepend memory x data = some (other, v) ∧ memory.SameValues other ∧
      v.Holds other outside ((x, data) :: l) := by
  obtain ⟨counted, hadded, hnodes, hvalues, hcounted, hfresh, hlive⟩ := h.newNode hx hdata
  rw [LinkedVector.prepend, hadded, Option.bind_some]
  cases l with
  | nil =>
    rw [if_pos (.inl (h.head_eq_zero.mpr rfl))]
    exact ⟨_, _, rfl, hvalues, holds_single hx.1 rfl rfl (Holds.counted_add hcounted (.refl _)) hlive⟩
  | cons entry rest =>
    have hhead : self.head = entry.1 := h.chain.1
    have hmem : entry.1 ∈ (entry :: rest).map Prod.fst := List.mem_cons_self
    obtain ⟨-, first, hfirst⟩ := h.chain.node hmem
    have hxne : entry.1 ≠ x := fun he => hfresh (he ▸ hmem)
    rw [if_neg (h.ends (List.cons_ne_nil entry rest)), hhead, Memory.setNode_ne _ hxne, hnodes, hfirst,
      Option.bind_some]
    simp only [Memory.setNode_ne _ hxne.symm, Memory.setNode_self, Option.map_some]
    refine ⟨_, _, rfl, hvalues, ⟨rfl, hx.1, _, Memory.setNode_self _ _ _, rfl, ?_⟩,
      List.nodup_cons.mpr ⟨hfresh, h.nodup⟩, ?_, Holds.counted_add hcounted (.refl _), hlive⟩
    · have hchain := h.chain
      rw [hhead] at hchain
      refine hchain.of_links fun y hy node hnode => ?_
      have hyx : y ≠ x := fun he => hfresh (he ▸ hy)
      rw [Memory.setNode_ne _ hyx]
      by_cases hye : y = entry.1
      · rw [hye] at hnode ⊢
        obtain rfl := Option.some.inj (hfirst.symm.trans hnode)
        exact ⟨x, Memory.setNode_self _ _ _⟩
      · exact ⟨node.prev, by rw [Memory.setNode_ne _ hye, Memory.setNode_ne _ hyx, hnodes, hnode]⟩
    · intro last hlast
      rw [List.getLast?_cons_cons] at hlast
      exact h.tail last hlast

theorem Holds.peek {x data : Nat} (h : self.Holds memory outside ((x, data) :: l)) :
    self.queuePeek memory = some data := by
  obtain ⟨-, hne, node, hnode, hdata, -⟩ := h.chain
  rw [queuePeek, if_neg hne, hnode, Option.map_some, hdata]

theorem Holds.peek_nil (h : self.Holds memory outside []) : self.queuePeek memory = some 0 := by
  rw [queuePeek, if_pos (h.head_eq_zero.mpr rfl)]

/-- The reference of the node goes over to the caller. -/
theorem Holds.pop {x data : Nat} (h : self.Holds memory outside ((x, data) :: l)) :
    ∃ other v, self.queuePop memory = some (data, other, v) ∧ memory.SameValues other ∧
      v.Holds other (Function.update outside data (outside data + 1)) l := by
  obtain ⟨hhead, hne, node, hnode, hdata, hchain⟩ := h.chain
  have hdata : node.data = data := hdata
  have hlive : data ≠ 0 → (memory.objects data).isSome = true := h.live data List.mem_cons_self
  obtain ⟨taken, hincref, hnodes, hvalues, hcounted⟩ := Memory.incref_spec h.counted hlive
  obtain ⟨freed, hdecref, hnodes', hvalues', hcounted'⟩ := Memory.decref_spec hcounted
    (fun hzero => (hvalues.live data).trans (hlive hzero)) fun _ => by
      rw [Function.update_self, List.map_cons, List.count_cons_self]
      omega
  have hnodup := h.nodup
  rw [List.map_cons, List.nodup_cons] at hnodup
  rw [queuePop, if_neg hne, hnode, Option.bind_some, hdata, hincref, Option.bind_some,
    Memory.linkedNodeFree, hnodes, hnode, Option.bind_some, hdata, hdecref]
  refine ⟨_, _, rfl, hvalues.trans hvalues', ?_, hnodup.2, ?_, ?_, ?_⟩
  · refine hchain.congr fun y hy => ?_
    have hyx : y ≠ self.head := by
      rintro rfl
      exact hnodup.1 (hhead ▸ hy)
    rw [Memory.setNode_ne _ hyx, hnodes', hnodes]
  · intro last hlast
    refine h.tail last ?_
    cases l with
    | nil => exact absurd hlast (by simp)
    | cons entry rest => rwa [List.getLast?_cons_cons]
  · refine ⟨hcounted'.1, fun y object hy => ?_⟩
    rw [hcounted'.2 y object hy]
    by_cases hyd : y = data
    · simp only [hyd, Function.update_self, List.map_cons, List.count_cons_self]
      omega
    · simp only [Function.update_of_ne hyd, List.map_cons, List.count_cons_of_ne (Ne.symm hyd)]
  · intro y hy hzero
    have hsame := (hvalues.trans hvalues').live y
    exact hsame.trans (h.live y (List.mem_cons_of_mem _ hy) hzero)

/-- The order in which the two pops do their steps makes no difference. -/
theorem stackPop_eq (self : LinkedVector) (memory : Memory α) :
    self.stackPop memory = self.queuePop memory := by
  rw [stackPop, queuePop]
  split_ifs with hhead
  · rfl
  · cases hnode : memory.nodes self.head with
    | none => rfl
    | some node =>
      rw [Option.bind_some, Option.bind_some]
      refine Option.bind_congr fun other hother => ?_
      rw [Memory.incref_nodes hother, hnode]
      rfl

end LinkedVector

end AutoGentoo
