import AutoGentoo.GuardedRun
import AutoGentoo.LinkedVector

/-! `queue_add`, `stack_add`, `queue_pop` and `stack_pop` on one linked vector, against a
list with two ends. -/

namespace AutoGentoo

open GuardedRun

/-- The address of the node is the one `malloc` returns. -/
inductive LinkedOp
  | queueAdd (x data : Nat)
  | stackAdd (x data : Nat)
  | queuePop
  | stackPop
  deriving DecidableEq, Repr

/-- The elements, and what the pops have returned, the latest last. -/
structure Deque where
  elements : List Nat
  popped : List Nat
  deriving DecidableEq, Repr

namespace Deque

def pop (self : Deque) : Deque :=
  match self.elements with
  | [] => { self with popped := self.popped ++ [0] }
  | x :: rest => { elements := rest, popped := self.popped ++ [x] }

def apply (self : Deque) : LinkedOp → Deque
  | .queueAdd _ data => { self with elements := self.elements ++ [data] }
  | .stackAdd _ data => { self with elements := data :: self.elements }
  | .queuePop | .stackPop => self.pop

end Deque

structure LinkedRun (α : Type) where
  memory : Memory α
  vector : LinkedVector
  popped : List Nat

namespace LinkedRun

variable {α : Type}

def new (memory : Memory α) (tail : Nat) : LinkedRun α where
  memory := memory
  vector := .new tail
  popped := []

def step (self : LinkedRun α) : LinkedOp → Option (LinkedRun α)
  | .queueAdd x data => (self.vector.queueAdd self.memory x data).map fun r =>
      { self with memory := r.1, vector := r.2 }
  | .stackAdd x data => (self.vector.stackAdd self.memory x data).map fun r =>
      { self with memory := r.1, vector := r.2 }
  | .queuePop => (self.vector.queuePop self.memory).map fun r =>
      { memory := r.2.1, vector := r.2.2, popped := self.popped ++ [r.1] }
  | .stackPop => (self.vector.stackPop self.memory).map fun r =>
      { memory := r.2.1, vector := r.2.2, popped := self.popped ++ [r.1] }

/-- The node is new, and what is added is NULL or an object. -/
def OpOk (self : LinkedRun α) : LinkedOp → Prop
  | .queueAdd x data | .stackAdd x data =>
      self.memory.Fresh x ∧ (data ≠ 0 → (self.memory.objects data).isSome = true)
  | .queuePop | .stackPop => True

instance OpOk.decidable (self : LinkedRun α) : (op : LinkedOp) → Decidable (OpOk self op)
  | .queueAdd x data | .stackAdd x data => inferInstanceAs (Decidable
      ((x ≠ 0 ∧ self.memory.nodes x = none ∧ self.memory.objects x = none) ∧
        (data ≠ 0 → (self.memory.objects data).isSome = true)))
  | .queuePop | .stackPop => isTrue trivial

/-- The vector has the elements of the list; what has been popped counts as outside. -/
structure Simulates (state : LinkedRun α) (outside : Nat → Nat) (deque : Deque)
    (l : List (Nat × Nat)) : Prop where
  holds : state.vector.Holds state.memory (fun x => outside x + deque.popped.count x) l
  elements : l.map Prod.snd = deque.elements
  popped : state.popped = deque.popped

variable {self : LinkedRun α} {outside : Nat → Nat} {deque : Deque} {l : List (Nat × Nat)}

theorem outside_pop (outside : Nat → Nat) (popped : List Nat) (x : Nat) :
    (fun y => outside y + (popped ++ [x]).count y) =
      Function.update (fun y => outside y + popped.count y) x (outside x + popped.count x + 1) := by
  funext y
  rw [List.count_append, List.count_singleton]
  by_cases hyx : y = x
  · rw [hyx, Function.update_self, if_pos (beq_self_eq_true x)]
    rfl
  · rw [Function.update_of_ne hyx, if_neg (by simpa using Ne.symm hyx)]
    rfl

theorem queuePop_simulates (h : Simulates self outside deque l) :
    ∃ other l', self.step .queuePop = some other ∧ self.memory.SameValues other.memory ∧
      other.Simulates outside deque.pop l' := by
  have hholds := h.holds
  have helements := h.elements
  cases l with
  | nil =>
    have hhead : self.vector.head = 0 := hholds.head_eq_zero.mpr rfl
    have hempty : deque.elements = [] := helements.symm
    have hpop : deque.pop = { deque with popped := deque.popped ++ [0] } := by rw [Deque.pop, hempty]
    have hstep : self.step .queuePop = some { self with popped := self.popped ++ [0] } := by
      rw [step, LinkedVector.queuePop, if_pos hhead]
      rfl
    refine ⟨_, [], hstep, fun _ => rfl, ?_, by rw [hpop, hempty]; rfl, by rw [hpop, h.popped]⟩
    rw [hpop, outside_pop]
    refine { hholds with counted := ?_ }
    have hnull := hholds.counted.null (outside 0 + deque.popped.count 0 + 1)
    exact hnull
  | cons entry rest =>
    obtain ⟨x, data⟩ := entry
    obtain ⟨other, v, hpopped, hvalues, hv⟩ := hholds.pop
    have hcons : deque.elements = data :: rest.map Prod.snd := helements.symm
    have hpop : deque.pop = { elements := rest.map Prod.snd, popped := deque.popped ++ [data] } := by
      rw [Deque.pop, hcons]
    have hstep : self.step .queuePop =
        some { memory := other, vector := v, popped := self.popped ++ [data] } := by
      rw [step, hpopped]
      rfl
    refine ⟨_, rest, hstep, hvalues, ?_, by rw [hpop], by rw [hpop, h.popped]⟩
    rw [hpop, outside_pop]
    exact hv

theorem step_simulates (h : Simulates self outside deque l) {op : LinkedOp} (hok : self.OpOk op) :
    ∃ other l', self.step op = some other ∧ self.memory.SameValues other.memory ∧
      other.Simulates outside (deque.apply op) l' := by
  have helements := h.elements
  cases op with
  | queueAdd x data =>
    obtain ⟨other, v, hadd, hvalues, hv⟩ := h.holds.append hok.1 hok.2
    have hstep : self.step (.queueAdd x data) = some { self with memory := other, vector := v } := by
      rw [step, LinkedVector.queueAdd, hadd]
      rfl
    exact ⟨_, _, hstep, hvalues, hv, by rw [List.map_append, helements]; rfl, h.popped⟩
  | stackAdd x data =>
    obtain ⟨other, v, hadd, hvalues, hv⟩ := h.holds.prepend hok.1 hok.2
    have hstep : self.step (.stackAdd x data) = some { self with memory := other, vector := v } := by
      rw [step, LinkedVector.stackAdd, hadd]
      rfl
    exact ⟨_, _, hstep, hvalues, hv, by rw [List.map_cons, helements]; rfl, h.popped⟩
  | queuePop => exact queuePop_simulates h
  | stackPop =>
    have hsame : self.step .stackPop = self.step .queuePop := by
      show (self.vector.stackPop self.memory).map _ = _
      rw [LinkedVector.stackPop_eq]
      rfl
    rw [hsame]
    exact queuePop_simulates h

theorem run_simulates (ops : List LinkedOp) (h : Simulates self outside deque l)
    (hok : AllOk step OpOk self ops) :
    ∃ other l', GuardedRun.run step self ops = some other ∧ self.memory.SameValues other.memory ∧
      other.Simulates outside (ops.foldl Deque.apply deque) l' := by
  induction ops generalizing self deque l with
  | nil => exact ⟨self, l, rfl, fun _ => rfl, h⟩
  | cons op ops ih =>
    obtain ⟨mid, l', hstep, hvalues, hmid⟩ := step_simulates h hok.1
    obtain ⟨other, l'', hrun, hvalues', hother⟩ := ih hmid (hok.2 mid hstep)
    refine ⟨other, l'', ?_, hvalues.trans hvalues', hother⟩
    rw [GuardedRun.run, hstep]
    exact hrun

theorem simulates_new {memory : Memory α} (h : memory.Counted outside) (tail : Nat) :
    (LinkedRun.new memory tail).Simulates outside { elements := [], popped := [] } [] where
  holds := ⟨rfl, List.nodup_nil, fun _ hlast => absurd hlast (by simp), h, by simp⟩
  elements := rfl
  popped := rfl

/-- Every run on a new vector, whatever its tail is, reads no freed memory, pops what the
list with two ends gives, and leaves its elements in the chain from the head, with the
tail at its end if there is one. An object has one reference for each that was outside at
first, each time it has been popped, and each time it is in the list. -/
theorem linked_vector_refines_deque {memory : Memory α} (h : memory.Counted outside) (tail : Nat)
    (ops : List LinkedOp) (hok : AllOk step OpOk (LinkedRun.new memory tail) ops) :
    ∃ s l, GuardedRun.run step (LinkedRun.new memory tail) ops = some s ∧
      let deque := ops.foldl Deque.apply { elements := [], popped := [] }
      Chain s.memory.nodes s.vector.head l ∧ l.map Prod.snd = deque.elements ∧
        s.popped = deque.popped ∧
        (s.vector.head ≠ 0 → (l.map Prod.fst).getLast? = some s.vector.tail) ∧
        (∀ x ∈ deque.elements, x ≠ 0 → (s.memory.objects x).isSome = true) ∧
        memory.SameValues s.memory ∧
        ∀ x object, s.memory.objects x = some object →
          object.referenceCount = outside x + deque.popped.count x + deque.elements.count x := by
  obtain ⟨s, l, hrun, hvalues, hs⟩ := run_simulates ops (simulates_new h tail) hok
  have hholds := hs.holds
  refine ⟨s, l, hrun, hholds.chain, hs.elements, hs.popped, fun hhead => ?_, ?_, hvalues, ?_⟩
  · have hne : l ≠ [] := fun hnil => hhead (hholds.head_eq_zero.mpr hnil)
    obtain ⟨last, hlast⟩ := Option.ne_none_iff_exists'.mp (mt List.getLast?_eq_none_iff.mp hne)
    rw [List.getLast?_map, hlast, hholds.tail last hlast]
    rfl
  · rw [← hs.elements]
    exact hholds.live
  · rw [← hs.elements]
    exact hholds.counted.2

def twoObjects : Memory Unit where
  nodes := fun _ => none
  objects := fun x => if x = 10 ∨ x = 20 then some { referenceCount := 0, value := () } else none

theorem twoObjects_counted : twoObjects.Counted fun _ => 0 := by
  refine ⟨rfl, fun x object hobject => ?_⟩
  simp only [twoObjects] at hobject
  split_ifs at hobject
  rw [← Option.some.inj hobject]

/-- The node of the second addition takes the place of one that has been freed. -/
theorem linked_vector_refines_deque_emptied : ∃ s,
    GuardedRun.run step (LinkedRun.new twoObjects 77)
        [.stackAdd 1 10, .queuePop, .queueAdd 1 20, .stackAdd 2 10, .stackPop, .queuePop, .queuePop] =
      some s ∧ s.popped = [10, 10, 20, 0] := by
  obtain ⟨s, l, hrun, -, -, hpopped, -⟩ := linked_vector_refines_deque twoObjects_counted 77
    [.stackAdd 1 10, .queuePop, .queueAdd 1 20, .stackAdd 2 10, .stackPop, .queuePop, .queuePop] (by decide)
  exact ⟨s, hrun, hpopped⟩

end LinkedRun

end AutoGentoo
