import AutoGentoo.QueueSet

/-! A queue set follows the queue without repetitions, and freeing it gives back every node
and every reference. -/

namespace AutoGentoo

open GuardedRun Representatives

namespace Memory

variable {α : Type} {memory : Memory α} {references : Nat → Nat} {x : Nat}

theorem see_live (hnull : memory.objects 0 = none) (hx : x ≠ 0 → (memory.objects x).isSome = true) :
    memory.see x = some (x, (memory.objects x).map RefObject.value) := by
  rw [see]
  split_ifs with hzero
  · rw [hzero, hnull]
    rfl
  · obtain ⟨object, hobject⟩ := Option.isSome_iff_exists.mp (hx hzero)
    rw [hobject]
    rfl

theorem Counted.object (h : memory.Counted references) (x : Nat) :
    memory.objects x = ((memory.objects x).map RefObject.value).map fun value =>
      { referenceCount := references x, value := value } := by
  cases hobject : memory.objects x with
  | none => rfl
  | some object =>
    rw [← h.2 x object hobject]
    rfl

/-- The last reference takes the object with it. -/
theorem decref_last (h : memory.Counted references) (hx : x ≠ 0 → (memory.objects x).isSome = true) :
    ∃ other, memory.decref x = some other ∧ other.nodes = memory.nodes ∧
      other.Counted (Function.update references x (references x - 1)) ∧
      ∀ y, (other.objects y).map RefObject.value =
        if y = x ∧ references x ≤ 1 then none else (memory.objects y).map RefObject.value := by
  by_cases hlast : x ≠ 0 ∧ references x ≤ 1
  · obtain ⟨object, hobject⟩ := Option.isSome_iff_exists.mp (hx hlast.1)
    have hcount : object.referenceCount = 0 ∨ object.referenceCount - 1 = 0 := by
      have hrefs := h.2 x object hobject
      omega
    refine ⟨memory.setObject x none, by rw [decref, if_neg hlast.1, hobject, Option.map_some, if_pos hcount],
      rfl, ⟨?_, fun y other hy => ?_⟩, fun y => ?_⟩
    · rw [setObject_ne _ hlast.1.symm, h.1]
    · have hyx : y ≠ x := by
        rintro rfl
        rw [setObject_self] at hy
        exact absurd hy (by simp)
      rw [setObject_ne _ hyx] at hy
      rw [Function.update_of_ne hyx, h.2 y other hy]
    · by_cases hyx : y = x
      · rw [hyx, setObject_self, if_pos ⟨rfl, hlast.2⟩]
        rfl
      · rw [setObject_ne _ hyx, if_neg fun hy => hyx hy.1]
  · obtain ⟨other, hdecref, hnodes, hvalues, hcounted⟩ := decref_spec h hx
      (fun hzero => by have hmore := not_and.mp hlast hzero; omega)
    refine ⟨other, hdecref, hnodes, hcounted, fun y => ?_⟩
    split_ifs with hy
    · have hzero : x = 0 := by
        by_contra hne
        exact hlast ⟨hne, hy.2⟩
      rw [hvalues, hy.1, hzero, h.1]
      rfl
    · exact hvalues y

end Memory

namespace LinkedVector

variable {α : Type}

theorem update_outside (outside : Nat → Nat) (data : Nat) (rest : List Nat) :
    Function.update (fun y => outside y + (data :: rest).count y) data
        (outside data + (data :: rest).count data - 1) =
      fun y => outside y + rest.count y := by
  funext y
  by_cases hy : y = data
  · rw [hy, Function.update_self, List.count_cons_self]
    rfl
  · rw [Function.update_of_ne hy, List.count_cons_of_ne (Ne.symm hy)]

/-- Every node is freed and takes its reference with it. -/
theorem freeFrom_spec {l : List (Nat × Nat)} {memory : Memory α} {outside : Nat → Nat} {p fuel : Nat}
    (hchain : Chain memory.nodes p l) (hnodup : (l.map Prod.fst).Nodup)
    (hcounted : memory.Counted fun x => outside x + (l.map Prod.snd).count x)
    (hlive : ∀ x ∈ l.map Prod.snd, x ≠ 0 → (memory.objects x).isSome = true) (hfuel : l.length < fuel) :
    ∃ other, freeFrom fuel memory p = some other ∧ other.Counted outside ∧
      (∀ x, other.nodes x = if x ∈ l.map Prod.fst then none else memory.nodes x) ∧
      ∀ x, (other.objects x).map RefObject.value =
        if x ∈ l.map Prod.snd ∧ outside x = 0 then none else (memory.objects x).map RefObject.value := by
  induction l generalizing p memory fuel with
  | nil =>
    obtain ⟨fuel, rfl⟩ := Nat.exists_eq_succ_of_ne_zero (Nat.ne_of_gt hfuel)
    have hzero : p = 0 := hchain
    exact ⟨memory, by rw [freeFrom, if_pos hzero], hcounted, fun x => (if_neg (by simp)).symm,
      fun x => (if_neg (by simp)).symm⟩
  | cons entry rest ih =>
    obtain ⟨x, data⟩ := entry
    obtain ⟨fuel, rfl⟩ := Nat.exists_eq_succ_of_ne_zero (Nat.ne_zero_of_lt hfuel)
    obtain ⟨rfl, hne, node, hnode, hdata, hrest⟩ := hchain
    obtain rfl : node.data = data := hdata
    rw [List.map_cons, List.nodup_cons] at hnodup
    simp only [List.map_cons] at hcounted hlive ⊢
    obtain ⟨mid, hdecref, hnodes, hmid, hvalues⟩ :=
      Memory.decref_last hcounted (hlive node.data List.mem_cons_self)
    rw [update_outside] at hmid
    have hfree : memory.linkedNodeFree p = some (mid.setNode p none) := by
      rw [Memory.linkedNodeFree, hnode, Option.bind_some, hdecref, Option.map_some]
    have hlast : outside node.data + (node.data :: rest.map Prod.snd).count node.data ≤ 1 ↔
        outside node.data = 0 ∧ node.data ∉ rest.map Prod.snd := by
      rw [List.count_cons_self, ← List.count_eq_zero]
      omega
    have hmidchain : Chain (mid.setNode p none).nodes node.next rest := hrest.congr fun y hy => by
      have hyp : y ≠ p := fun he => hnodup.1 (he ▸ hy)
      rw [Memory.setNode_ne _ hyp, hnodes]
    have hmidlive : ∀ y ∈ rest.map Prod.snd, y ≠ 0 → (mid.objects y).isSome = true := by
      intro y hy hzero
      have hkept := hvalues y
      rw [if_neg (by rintro ⟨rfl, hgone⟩; exact (hlast.mp hgone).2 hy)] at hkept
      rw [← Option.isSome_map, hkept, Option.isSome_map]
      exact hlive y (List.mem_cons_of_mem _ hy) hzero
    obtain ⟨other, hother, hcounted', hnodes', hvalues'⟩ :=
      ih hmidchain hnodup.2 hmid hmidlive (Nat.lt_of_succ_lt_succ hfuel)
    refine ⟨other, ?_, hcounted', fun y => ?_, fun y => ?_⟩
    · rw [freeFrom, if_neg hne, hnode, Option.bind_some, hfree, Option.bind_some, hother]
    · rw [hnodes' y]
      by_cases hyp : y = p
      · rw [hyp, if_neg hnodup.1, Memory.setNode_self, if_pos List.mem_cons_self]
      · rw [Memory.setNode_ne _ hyp, hnodes]
        simp only [List.mem_cons, hyp, false_or]
    · have hobjects : (mid.setNode p none).objects = mid.objects := rfl
      rw [hvalues' y, hobjects, hvalues y]
      simp only [hlast, List.mem_cons]
      by_cases hy : y = node.data
      · subst hy
        by_cases hmem : node.data ∈ rest.map Prod.snd <;> simp only [hmem, true_and, true_or, false_and,
          and_false, and_true, not_true, not_false_iff, if_false]
      · simp only [hy, false_or, false_and, if_false]

theorem foreachFrom_spec {l : List (Nat × Nat)} {memory : Memory α} {p fuel : Nat}
    (hchain : Chain memory.nodes p l) (hfuel : l.length < fuel) :
    foreachFrom memory fuel p = some (l.map Prod.snd) := by
  induction l generalizing p fuel with
  | nil =>
    obtain ⟨fuel, rfl⟩ := Nat.exists_eq_succ_of_ne_zero (Nat.ne_of_gt hfuel)
    have hzero : p = 0 := hchain
    rw [foreachFrom, if_pos hzero]
    rfl
  | cons entry rest ih =>
    obtain ⟨fuel, rfl⟩ := Nat.exists_eq_succ_of_ne_zero (Nat.ne_zero_of_lt hfuel)
    obtain ⟨-, hne, node, hnode, hdata, hrest⟩ := hchain
    rw [foreachFrom, if_neg hne, hnode, Option.bind_some, ih hrest (Nat.lt_of_succ_lt_succ hfuel),
      Option.map_some, hdata]
    rfl

variable {self v : LinkedVector} {memory other : Memory α} {outside : Nat → Nat} {l : List (Nat × Nat)}

/-- Other nodes are left alone. -/
theorem Holds.append_nodes (h : self.Holds memory outside l) {x data : Nat}
    (hadd : self.append memory x data = some (other, v)) {y : Nat} (hy : y ∉ (l ++ [(x, data)]).map Prod.fst) :
    other.nodes y = memory.nodes y := by
  rw [List.map_append, List.mem_append, not_or, List.map_singleton, List.mem_singleton] at hy
  obtain ⟨new, hnew, hrest⟩ := Option.bind_eq_some_iff.mp hadd
  obtain ⟨counted, hincref, rfl⟩ := Option.map_eq_some_iff.mp hnew
  have hnodes := Memory.incref_nodes hincref
  split_ifs at hrest with hends
  · obtain ⟨rfl, -⟩ := Prod.mk.inj (Option.some.inj hrest)
    rw [Memory.setNode_ne _ hy.2, hnodes]
  · obtain ⟨last, -, hrest⟩ := Option.bind_eq_some_iff.mp hrest
    obtain ⟨node, -, he⟩ := Option.map_eq_some_iff.mp hrest
    obtain ⟨rfl, -⟩ := Prod.mk.inj he
    have hnil : l ≠ [] := fun hnil => hends (.inl (h.head_eq_zero.mpr hnil))
    obtain ⟨entry, hentry⟩ := Option.ne_none_iff_exists'.mp (mt List.getLast?_eq_none_iff.mp hnil)
    have htail : y ≠ self.tail := by
      rw [h.tail entry hentry]
      exact fun he => hy.1 (he ▸ List.mem_map_of_mem (List.mem_of_getLast? hentry))
    rw [Memory.setNode_ne _ hy.2, Memory.setNode_ne _ htail, Memory.setNode_ne _ hy.2, hnodes]

/-- The node that has been popped is gone. -/
theorem Holds.pop_nodes {x data : Nat} (h : self.Holds memory outside ((x, data) :: l)) {popped : Nat}
    (hpop : self.queuePop memory = some (popped, other, v)) (y : Nat) :
    other.nodes y = if y = x then none else memory.nodes y := by
  obtain ⟨hhead, hne, -⟩ := h.chain
  rw [queuePop, if_neg hne] at hpop
  obtain ⟨node, -, hpop⟩ := Option.bind_eq_some_iff.mp hpop
  obtain ⟨taken, hincref, hpop⟩ := Option.bind_eq_some_iff.mp hpop
  obtain ⟨freed, hfree, he⟩ := Option.map_eq_some_iff.mp hpop
  obtain ⟨node', -, hfree⟩ := Option.bind_eq_some_iff.mp hfree
  obtain ⟨given, hdecref, rfl⟩ := Option.map_eq_some_iff.mp hfree
  obtain ⟨-, he⟩ := Prod.mk.inj he
  obtain ⟨rfl, -⟩ := Prod.mk.inj he
  have hgiven : given.nodes = memory.nodes := by
    rw [← Memory.incref_nodes hincref]
    rw [Memory.decref] at hdecref
    split_ifs at hdecref
    · rw [Option.some.inj hdecref]
    · obtain ⟨object, -, rfl⟩ := Option.map_eq_some_iff.mp hdecref
      split_ifs <;> rfl
  have hx : self.head = x := hhead
  rw [hx]
  split_ifs with hyx
  · rw [hyx, Memory.setNode_self]
  · rw [Memory.setNode_ne _ hyx, hgiven]

end LinkedVector

namespace QueueSetRun

variable {α : Type}

/-- The set has the elements of the queue in nodes that were not there before. -/
structure Simulates (before : Nat → Option LinkedNode) (s : QueueSetRun α) (fifo : FifoSet α)
    (l : List (Nat × Nat)) : Prop where
  holds : s.set.parent.Holds s.memory fifo.held l
  elements : l.map Prod.snd = fifo.elements
  values : ∀ x, (s.memory.objects x).map RefObject.value = fifo.values x
  held : s.held = fifo.held
  results : s.results = fifo.results
  unheld : ∀ x, x ≠ 0 → s.memory.objects x = none → fifo.held x = 0
  nodes : ∀ x ∉ l.map Prod.fst, s.memory.nodes x = before x
  fresh : ∀ x ∈ l.map Prod.fst, before x = none

variable {before : Nat → Option LinkedNode} {s : QueueSetRun α} {fifo : FifoSet α} {l : List (Nat × Nat)}
  {fuel : Nat}

theorem Simulates.live (h : Simulates before s fifo l) {x : Nat} (hx : x ∈ fifo.elements) (hzero : x ≠ 0) :
    (s.memory.objects x).isSome = true := h.holds.live x (h.elements ▸ hx) hzero

theorem Simulates.see (h : Simulates before s fifo l) {x : Nat}
    (hx : x ≠ 0 → (s.memory.objects x).isSome = true) : s.memory.see x = some (x, fifo.values x) := by
  rw [Memory.see_live h.holds.counted.1 hx, h.values x]

theorem Simulates.object (h : Simulates before s fifo l) (x : Nat) : s.memory.objects x = fifo.object x := by
  rw [h.holds.counted.object x, h.values x, h.elements]
  rfl

/-- The loop over the rest of the nodes looks for the element among the rest of the queue. -/
theorem insideFrom_spec (h : Simulates before s fifo l) {el : Nat}
    (hel : el ≠ 0 → (s.memory.objects el).isSome = true) {rest : List (Nat × Nat)} {p : Nat}
    (hchain : Chain s.memory.nodes p rest) (hrest : ∀ x ∈ rest.map Prod.snd, x ∈ fifo.elements)
    (hfuel : rest.length < fuel) :
    s.set.insideFrom s.memory el fuel p =
      some (if Inside (FifoSet.Same s.set.cmp fifo.values) (rest.map Prod.snd) el then 1 else 0) := by
  induction rest generalizing p fuel with
  | nil =>
    obtain ⟨fuel, rfl⟩ := Nat.exists_eq_succ_of_ne_zero (Nat.ne_of_gt hfuel)
    have hzero : p = 0 := hchain
    rw [QueueSet.insideFrom, if_pos hzero, if_neg (by simp [Inside])]
  | cons entry rest ih =>
    obtain ⟨fuel, rfl⟩ := Nat.exists_eq_succ_of_ne_zero (Nat.ne_zero_of_lt hfuel)
    obtain ⟨-, hne, node, hnode, hdata, hchain⟩ := hchain
    have hdatum : node.data ∈ fifo.elements := hdata ▸ hrest entry.2 List.mem_cons_self
    rw [QueueSet.insideFrom, if_neg hne, hnode, Option.bind_some, h.see (h.live hdatum), Option.bind_some,
      h.see hel, Option.bind_some, ih hchain (fun x hx => hrest x (List.mem_cons_of_mem _ hx))
        (Nat.lt_of_succ_lt_succ hfuel), List.map_cons, ← hdata]
    by_cases hsame : s.set.cmp (node.data, fifo.values node.data) (el, fifo.values el) ≠ 0
    · rw [if_pos hsame, if_pos ⟨node.data, List.mem_cons_self, hsame⟩]
    · have hinside : Inside (FifoSet.Same s.set.cmp fifo.values) (node.data :: rest.map Prod.snd) el ↔
          Inside (FifoSet.Same s.set.cmp fifo.values) (rest.map Prod.snd) el := by
        simp [Inside, FifoSet.Same, hsame]
      simp only [if_neg hsame, hinside]

theorem Simulates.inside (h : Simulates before s fifo l) {el : Nat}
    (hel : el ≠ 0 → (s.memory.objects el).isSome = true) (hfuel : l.length < fuel) :
    s.set.queueSetInside fuel s.memory el =
      some (if Inside (FifoSet.Same s.set.cmp fifo.values) fifo.elements el then 1 else 0) := by
  rw [QueueSet.queueSetInside, insideFrom_spec h hel h.holds.chain (fun x hx => h.elements ▸ hx) hfuel, h.elements]

theorem create_simulates (fuel : Nat) (h : Simulates before s fifo l) {x : Nat} (hx : s.memory.Fresh x) (value : α) :
    ∃ t, s.step fuel (.create x value) = some t ∧
      Simulates before t (fifo.apply s.set.cmp (.create x value)) l := by
  have hunheld : fifo.held x = 0 := h.unheld x hx.1 hx.2.2
  have hnone : x ∉ fifo.elements := fun hmem => by
    have hlive := h.live hmem hx.1
    rw [hx.2.2] at hlive
    exact absurd hlive (by simp)
  refine ⟨_, rfl, ⟨h.holds.chain, h.holds.nodup, h.holds.tail, ⟨?_, fun y object hy => ?_⟩, fun y hy hzero => ?_⟩,
    h.elements, fun y => ?_, h.held, h.results, fun y hzero hy => ?_, h.nodes, h.fresh⟩
  · rw [Memory.setObject_ne _ hx.1.symm, h.holds.counted.1]
  · by_cases hyx : y = x
    · subst hyx
      rw [Memory.setObject_self] at hy
      have hcount : (l.map Prod.snd).count y = 0 := List.count_eq_zero.mpr (h.elements ▸ hnone)
      rw [← Option.some.inj hy]
      show 0 = fifo.held y + (l.map Prod.snd).count y
      rw [hunheld, hcount]
    · rw [Memory.setObject_ne _ hyx] at hy
      exact h.holds.counted.2 y object hy
  · have hyx : y ≠ x := by
      rintro rfl
      exact hnone (h.elements ▸ hy)
    rw [Memory.setObject_ne _ hyx]
    exact h.holds.live y hy hzero
  · show _ = Function.update fifo.values x (some value) y
    by_cases hyx : y = x
    · rw [hyx, Memory.setObject_self, Function.update_self]
      rfl
    · rw [Memory.setObject_ne _ hyx, Function.update_of_ne hyx, h.values]
  · by_cases hyx : y = x
    · rw [hyx, Memory.setObject_self] at hy
      exact absurd hy (by simp)
    · rw [Memory.setObject_ne _ hyx] at hy
      exact h.unheld y hzero hy

theorem update_held (held : Nat → Nat) (elements : List Nat) (x n : Nat) :
    Function.update (fun y => held y + elements.count y) x (n + elements.count x) =
      fun y => Function.update held x n y + elements.count y := by
  funext y
  by_cases hy : y = x
  · rw [hy, Function.update_self, Function.update_self]
  · rw [Function.update_of_ne hy, Function.update_of_ne hy]

theorem hold_simulates (fuel : Nat) (h : Simulates before s fifo l) {x : Nat}
    (hx : x ≠ 0 → (s.memory.objects x).isSome = true) :
    ∃ t, s.step fuel (.hold x) = some t ∧ Simulates before t (fifo.apply s.set.cmp (.hold x)) l := by
  obtain ⟨other, hincref, hnodes, hvalues, hcounted⟩ := Memory.incref_spec h.holds.counted hx
  rw [Nat.add_right_comm, update_held] at hcounted
  have hstep : s.step fuel (.hold x) =
      some { s with memory := other, held := Function.update s.held x (s.held x + 1) } := by
    rw [step, hincref, Option.map_some]
  refine ⟨_, hstep, ⟨hnodes ▸ h.holds.chain, h.holds.nodup, h.holds.tail,
    hcounted, fun y hy hzero => ?_⟩, h.elements, fun y => ?_, ?_, h.results, fun y hzero hy => ?_, ?_, h.fresh⟩
  · rw [hvalues.live]
    exact h.holds.live y hy hzero
  · exact (hvalues y).trans (h.values y)
  · rw [h.held]
    rfl
  · have hdead : s.memory.objects y = none := by
      rw [← Option.isNone_iff_eq_none, ← Option.not_isSome, ← hvalues.live, hy]
      rfl
    have hyx : y ≠ x := by
      rintro rfl
      have hlive := hx hzero
      rw [hdead] at hlive
      exact absurd hlive (by simp)
    show Function.update fifo.held x (fifo.held x + 1) y = 0
    rw [Function.update_of_ne hyx]
    exact h.unheld y hzero hdead
  · show ∀ y ∉ l.map Prod.fst, other.nodes y = before y
    rw [hnodes]
    exact h.nodes

/-- Elements of the queue do not go with a reference of the caller. -/
theorem release_simulates (fuel : Nat) (h : Simulates before s fifo l) {x : Nat} (hok : s.OpOk (.release x)) :
    ∃ t, s.step fuel (.release x) = some t ∧ Simulates before t (fifo.apply s.set.cmp (.release x)) l := by
  obtain ⟨other, hdecref, hnodes, hcounted, hvalues⟩ :=
    Memory.decref_last h.holds.counted fun hzero => (hok hzero).1
  have hgiven : x ≠ 0 → 0 < fifo.held x ∨ fifo.held x + (l.map Prod.snd).count x = 0 := fun hzero =>
    (hok hzero).2.imp (h.held ▸ ·) fun hnone => by
      obtain ⟨object, hobject, hcount⟩ := Option.map_eq_some_iff.mp hnone
      exact (h.holds.counted.2 x object hobject).symm.trans hcount
  have hcounted' : other.Counted fun y =>
      Function.update fifo.held x (fifo.held x - 1) y + (l.map Prod.snd).count y := by
    by_cases hzero : x = 0
    · refine ⟨hcounted.1, fun y object hy => ?_⟩
      have hyx : y ≠ x := by
        rintro rfl
        rw [hzero, hcounted.1] at hy
        exact absurd hy (by simp)
      have hcount := hcounted.2 y object hy
      rw [Function.update_of_ne hyx] at hcount
      simp only [Function.update_of_ne hyx, hcount]
    · rw [← update_held]
      have hone := hgiven hzero
      have hsame : fifo.held x + (l.map Prod.snd).count x - 1 = fifo.held x - 1 + (l.map Prod.snd).count x := by
        omega
      rwa [hsame] at hcounted
  have hstep : s.step fuel (.release x) =
      some { s with memory := other, held := Function.update s.held x (s.held x - 1) } := by
    rw [step, hdecref, Option.map_some]
  refine ⟨_, hstep, ⟨hnodes ▸ h.holds.chain, h.holds.nodup, h.holds.tail,
    hcounted', fun y hy hzero => ?_⟩, h.elements, fun y => ?_, ?_, h.results, fun y hzero hy => ?_, ?_, h.fresh⟩
  · have hstays : ¬ (y = x ∧ fifo.held x + (l.map Prod.snd).count x ≤ 1) := by
      rintro ⟨rfl, hle⟩
      have hone := hgiven hzero
      have hcount := List.count_pos_iff.mpr hy
      omega
    have hkept := hvalues y
    rw [if_neg hstays] at hkept
    rw [← Option.isSome_map, hkept, Option.isSome_map]
    exact h.holds.live y hy hzero
  · rw [hvalues y, h.elements]
    show _ = (if fifo.held x + fifo.elements.count x ≤ 1 then Function.update fifo.values x none
      else fifo.values) y
    by_cases hyx : y = x
    · rw [hyx, h.values]
      split_ifs <;> simp_all
    · rw [if_neg fun hy => hyx hy.1, h.values]
      split_ifs
      · rw [Function.update_of_ne hyx]
      · rfl
  · rw [h.held]
    rfl
  · show Function.update fifo.held x (fifo.held x - 1) y = 0
    have hnone : (other.objects y).map RefObject.value = none := by rw [hy]; rfl
    rw [hvalues y] at hnone
    by_cases hyx : y = x
    · subst hyx
      rw [Function.update_self]
      split_ifs at hnone with hlast
      · omega
      · have hlive := (hok hzero).1
        rw [← Option.isSome_map, hnone] at hlive
        exact absurd hlive (by simp)
    · rw [Function.update_of_ne hyx]
      rw [if_neg fun hy => hyx hy.1] at hnone
      exact h.unheld y hzero (Option.map_eq_none_iff.mp hnone)
  · show ∀ y ∉ l.map Prod.fst, other.nodes y = before y
    rw [hnodes]
    exact h.nodes

theorem add_simulates (h : Simulates before s fifo l) {x el : Nat} (hok : s.OpOk (.add x el))
    (hfuel : l.length < fuel) :
    ∃ t l', s.step fuel (.add x el) = some t ∧ l'.length ≤ l.length + 1 ∧ t.set.cmp = s.set.cmp ∧
      Simulates before t (fifo.apply s.set.cmp (.add x el)) l' := by
  have hinside := h.inside hok.2 hfuel
  by_cases hmem : Inside (FifoSet.Same s.set.cmp fifo.values) fifo.elements el
  · rw [if_pos hmem] at hinside
    have hstep : s.step fuel (.add x el) = some { s with results := s.results ++ [[0]] } := by
      rw [step, QueueSet.queueSetAdd, hinside, Option.bind_some, if_pos Nat.one_ne_zero, Option.map_some]
    have hresult : (fifo.apply s.set.cmp (.add x el)).results = fifo.results ++ [[0]] := by
      rw [FifoSet.apply, if_pos hmem]
    have helements : (fifo.apply s.set.cmp (.add x el)).elements = fifo.elements := insert_of_inside hmem
    exact ⟨_, l, hstep, Nat.le_succ _, rfl, ⟨h.holds, h.elements.trans helements.symm, h.values, h.held,
      by rw [hresult, h.results], h.unheld, h.nodes, h.fresh⟩⟩
  · rw [if_neg hmem] at hinside
    obtain ⟨other, v, hadd, hvalues, hv⟩ := h.holds.append hok.1 hok.2
    have hstep : s.step fuel (.add x el) = some { s with
        memory := other, set := { s.set with parent := v }, results := s.results ++ [[1]] } := by
      rw [step, QueueSet.queueSetAdd, hinside, Option.bind_some, if_neg (not_not_intro rfl),
        LinkedVector.queueAdd, hadd]
      rfl
    have hresult : (fifo.apply s.set.cmp (.add x el)).results = fifo.results ++ [[1]] := by
      rw [FifoSet.apply, if_neg hmem]
    have helements : (fifo.apply s.set.cmp (.add x el)).elements = fifo.elements ++ [el] :=
      insert_of_not_inside hmem
    have hlive := hvalues.live
    refine ⟨_, l ++ [(x, el)], hstep, by rw [List.length_append]; rfl, rfl, ⟨hv, ?_, fun y => ?_, h.held,
      by rw [hresult, h.results], fun y hzero hy => ?_, fun y hy => ?_, fun y hy => ?_⟩⟩
    · rw [helements, List.map_append, h.elements]
      rfl
    · exact (hvalues y).trans (h.values y)
    · refine h.unheld y hzero ?_
      rw [← Option.isNone_iff_eq_none, ← Option.not_isSome, ← hlive, hy]
      rfl
    · rw [h.holds.append_nodes hadd hy]
      rw [List.map_append, List.mem_append, not_or] at hy
      exact h.nodes y hy.1
    · rw [List.map_append, List.mem_append] at hy
      rcases hy with hy | hy
      · exact h.fresh y hy
      · obtain rfl : y = x := by simpa using hy
        by_cases hold : y ∈ l.map Prod.fst
        · exact h.fresh y hold
        · rw [← h.nodes y hold, hok.1.2.1]

theorem pop_simulates (h : Simulates before s fifo l) :
    ∃ t l', s.step fuel .pop = some t ∧ l'.length ≤ l.length + 1 ∧ t.set.cmp = s.set.cmp ∧
      Simulates before t (fifo.apply s.set.cmp .pop) l' := by
  have hholds := h.holds
  have helements := h.elements
  cases l with
  | nil =>
    have hempty : fifo.elements = [] := helements.symm
    have hstep : s.step fuel .pop = some { s with
        held := Function.update s.held 0 (s.held 0 + 1), results := s.results ++ [[0]] } := by
      rw [step, QueueSet.queueSetPop, LinkedVector.queuePop, if_pos (hholds.head_eq_zero.mpr rfl)]
      rfl
    have hpop : fifo.apply s.set.cmp .pop = { fifo with
        held := Function.update fifo.held 0 (fifo.held 0 + 1), results := fifo.results ++ [[0]] } := by
      rw [FifoSet.apply, hempty]
      rfl
    rw [hpop]
    refine ⟨_, [], hstep, Nat.zero_le _, rfl, ⟨{ hholds with counted := ?_ }, helements, h.values,
      by rw [h.held], by rw [h.results], fun y hzero hy => ?_, h.nodes, h.fresh⟩⟩
    · exact hholds.counted.null (fifo.held 0 + 1)
    · exact (Function.update_of_ne hzero _ _).trans (h.unheld y hzero hy)
  | cons entry rest =>
    obtain ⟨x, data⟩ := entry
    obtain ⟨other, v, hpopped, hvalues, hv⟩ := hholds.pop
    have hcons : fifo.elements = data :: rest.map Prod.snd := helements.symm
    have hstep : s.step fuel .pop = some { s with
        memory := other, set := { s.set with parent := v },
        held := Function.update s.held data (s.held data + 1), results := s.results ++ [[data]] } := by
      rw [step, QueueSet.queueSetPop, hpopped]
      rfl
    have hpop : fifo.apply s.set.cmp .pop = { fifo with
        elements := rest.map Prod.snd
        held := Function.update fifo.held data (fifo.held data + 1)
        results := fifo.results ++ [[data]] } := by
      rw [FifoSet.apply, hcons]
      rfl
    have hnodup := hholds.nodup
    rw [List.map_cons, List.nodup_cons] at hnodup
    rw [hpop]
    refine ⟨_, rest, hstep, Nat.le_of_lt (Nat.lt_succ_of_lt (Nat.lt_succ_self _)), rfl, ⟨hv, rfl,
      fun y => (hvalues y).trans (h.values y), by rw [h.held], by rw [h.results], fun y hzero hy => ?_,
      fun y hy => ?_, fun y hy => h.fresh y (List.mem_cons_of_mem _ hy)⟩⟩
    · have hdead : s.memory.objects y = none := by
        rw [← Option.isNone_iff_eq_none, ← Option.not_isSome, ← hvalues.live, hy]
        rfl
      have hne : y ≠ data := by
        rintro rfl
        have hlive := h.live (hcons ▸ List.mem_cons_self) hzero
        rw [hdead] at hlive
        exact absurd hlive (by simp)
      exact (Function.update_of_ne hne _ _).trans (h.unheld y hzero hdead)
    · rw [hholds.pop_nodes hpopped y]
      split_ifs with hyx
      · exact (h.fresh y (hyx ▸ List.mem_cons_self)).symm
      · refine h.nodes y ?_
        rw [List.map_cons, List.mem_cons, not_or]
        exact ⟨hyx, hy⟩

theorem Simulates.peek (h : Simulates before s fifo l) :
    s.set.queueSetPeek s.memory = some (fifo.elements.headD 0) := by
  rw [← h.elements]
  cases l with
  | nil => exact h.holds.peek_nil
  | cons entry rest => exact h.holds.peek

theorem Simulates.result (h : Simulates before s fifo l) (result : List Nat) :
    Simulates before { s with results := s.results ++ [result] }
      { fifo with results := fifo.results ++ [result] } l :=
  ⟨h.holds, h.elements, h.values, h.held, by rw [h.results], h.unheld, h.nodes, h.fresh⟩

theorem step_simulates (h : Simulates before s fifo l) {op : QueueSetOp α} (hok : s.OpOk op)
    (hfuel : l.length < fuel) :
    ∃ t l', s.step fuel op = some t ∧ l'.length ≤ l.length + 1 ∧ t.set.cmp = s.set.cmp ∧
      Simulates before t (fifo.apply s.set.cmp op) l' := by
  have hlength : l.length ≤ l.length + 1 := Nat.le_succ _
  cases op with
  | create x value =>
    obtain ⟨t, hstep, ht⟩ := create_simulates fuel h hok value
    obtain rfl := Option.some.inj hstep
    exact ⟨_, l, rfl, hlength, rfl, ht⟩
  | hold x =>
    obtain ⟨t, hstep, ht⟩ := hold_simulates fuel h hok
    obtain ⟨other, -, rfl⟩ := Option.map_eq_some_iff.mp hstep
    exact ⟨_, l, hstep, hlength, rfl, ht⟩
  | release x =>
    obtain ⟨t, hstep, ht⟩ := release_simulates fuel h hok
    obtain ⟨other, -, rfl⟩ := Option.map_eq_some_iff.mp hstep
    exact ⟨_, l, hstep, hlength, rfl, ht⟩
  | inside el =>
    refine ⟨_, l, ?_, hlength, ?_, h.result _⟩
    · rw [step, h.inside hok hfuel, Option.map_some]
    · rfl
  | add x el => exact add_simulates h hok hfuel
  | peek =>
    refine ⟨_, l, ?_, hlength, ?_, h.result _⟩
    · rw [step, h.peek, Option.map_some]
    · rfl
  | pop => exact pop_simulates h
  | foreach =>
    have hforeach : s.set.queueSetForeach fuel s.memory = some fifo.elements := by
      rw [QueueSet.queueSetForeach, LinkedVector.foreachFrom_spec h.holds.chain hfuel, h.elements]
    refine ⟨_, l, ?_, hlength, ?_, h.result _⟩
    · rw [step, hforeach, Option.map_some]
    · rfl

theorem same_equivalence {cmp : Nat × Option α → Nat × Option α → Int}
    (hcmp : Equivalence fun e1 e2 => cmp e1 e2 ≠ 0) (values : Nat → Option α) :
    Equivalence (FifoSet.Same cmp values) where
  refl x := hcmp.refl (x, values x)
  symm h := hcmp.symm h
  trans h h' := hcmp.trans h' h

theorem distinct_congr {cmp : Nat × Option α → Nat × Option α → Int} {values values' : Nat → Option α}
    {elements : List Nat} (h : Distinct (FifoSet.Same cmp values) elements)
    (hvalues : ∀ x ∈ elements, values' x = values x) : Distinct (FifoSet.Same cmp values') elements := by
  refine List.Pairwise.imp_of_mem (fun hx hy hne => ?_) h
  rwa [FifoSet.Same, hvalues _ hx, hvalues _ hy]

theorem apply_distinct (h : Simulates before s fifo l) (hcmp : Equivalence fun e1 e2 => s.set.cmp e1 e2 ≠ 0)
    {op : QueueSetOp α} (hok : s.OpOk op) (hd : Distinct (FifoSet.Same s.set.cmp fifo.values) fifo.elements) :
    Distinct (FifoSet.Same s.set.cmp (fifo.apply s.set.cmp op).values) (fifo.apply s.set.cmp op).elements := by
  cases op with
  | create x value =>
    refine distinct_congr hd fun y hy => Function.update_of_ne ?_ _ _
    rintro rfl
    have hlive := h.live hy hok.1
    rw [hok.2.2] at hlive
    exact absurd hlive (by simp)
  | release x =>
    refine distinct_congr hd fun y hy => ?_
    show (if fifo.held x + fifo.elements.count x ≤ 1 then Function.update fifo.values x none
      else fifo.values) y = fifo.values y
    split_ifs with hlast
    · by_cases hyx : y = x
      · subst hyx
        have hy : y ∈ fifo.elements := hy
        have hzero : y = 0 := by
          by_contra hzero
          have hcount := List.count_pos_iff.mpr hy
          rcases (hok hzero).2 with hheld | hnone
          · rw [h.held] at hheld
            omega
          · obtain ⟨object, hobject, hnone⟩ := Option.map_eq_some_iff.mp hnone
            have hrefs : object.referenceCount = fifo.held y + fifo.elements.count y := by
              rw [h.holds.counted.2 y object hobject, h.elements]
            omega
        rw [Function.update_self, ← h.values y, hzero, h.holds.counted.1]
        rfl
      · exact Function.update_of_ne hyx _ _
    · rfl
  | add x el => exact hd.insert (same_equivalence hcmp _) el
  | pop => exact hd.sublist (List.tail_sublist _)
  | hold _ | inside _ | peek | foreach => exact hd

theorem run_simulates (ops : List (QueueSetOp α)) (h : Simulates before s fifo l)
    (hok : AllOk (step fuel) OpOk s ops) (hfuel : l.length + ops.length < fuel) :
    ∃ t l', GuardedRun.run (step fuel) s ops = some t ∧ l'.length ≤ l.length + ops.length ∧
      Simulates before t (ops.foldl (FifoSet.apply s.set.cmp) fifo) l' ∧
      (Equivalence (fun e1 e2 => s.set.cmp e1 e2 ≠ 0) →
        Distinct (FifoSet.Same s.set.cmp fifo.values) fifo.elements →
        let last := ops.foldl (FifoSet.apply s.set.cmp) fifo
        Distinct (FifoSet.Same s.set.cmp last.values) last.elements) := by
  induction ops generalizing s fifo l with
  | nil => exact ⟨s, l, rfl, Nat.le_refl _, h, fun _ hd => hd⟩
  | cons op ops ih =>
    rw [List.length_cons] at hfuel ⊢
    obtain ⟨mid, l', hstep, hlength, hcmp, hmid⟩ := step_simulates h hok.1 (by omega : l.length < fuel)
    obtain ⟨t, l'', hrun, hlength', ht, hdistinct⟩ := ih hmid (hok.2 mid hstep) (by omega)
    rw [hcmp] at ht hdistinct
    refine ⟨t, l'', ?_, by omega, ht, fun he hd => hdistinct he (apply_distinct h he hok.1 hd)⟩
    rw [GuardedRun.run, hstep]
    exact hrun

/-- A new set, and the references the caller has. -/
def new (memory : Memory α) (held : Nat → Nat) (cmp : Option (Nat × Option α → Nat × Option α → Int))
    (tail : Nat) : QueueSetRun α where
  memory := memory
  set := .queueSetNew cmp tail
  held := held
  results := []

end QueueSetRun

/-- The queue with nothing in it, over the objects that are there. -/
def FifoSet.new {α : Type} (memory : Memory α) (held : Nat → Nat) : FifoSet α where
  elements := []
  held := held
  values x := (memory.objects x).map RefObject.value
  results := []

namespace QueueSetRun

variable {α : Type} {memory : Memory α} {held : Nat → Nat}

theorem simulates_new {cmp : Option (Nat × Option α → Nat × Option α → Int)} {tail : Nat} (h : memory.Counted held) (hheld : ∀ x, x ≠ 0 → memory.objects x = none → held x = 0) :
    Simulates memory.nodes (new memory held cmp tail) (.new memory held) [] where
  holds := ⟨rfl, List.nodup_nil, fun _ hlast => absurd hlast (by simp), h, by simp⟩
  elements := rfl
  values := fun _ => rfl
  held := rfl
  results := rfl
  unheld := hheld
  nodes := fun _ _ => rfl
  fresh := by simp

/-- In every run the calls return what the queue without repetitions gives, nothing is read
that has been freed, and each object has the references of the caller and of the queue. No
two elements are ever the same, if being the same is an equivalence. -/
theorem queue_set_refines (fuel tail : Nat) (cmp : Option (Nat × Option α → Nat × Option α → Int))
    (ops : List (QueueSetOp α)) (h : memory.Counted held)
    (hheld : ∀ x, x ≠ 0 → memory.objects x = none → held x = 0)
    (hok : AllOk (step fuel) OpOk (new memory held cmp tail) ops) (hfuel : ops.length < fuel) :
    ∃ s, GuardedRun.run (step fuel) (new memory held cmp tail) ops = some s ∧
      let fifo := ops.foldl (FifoSet.apply (cmp.getD cmpDefault)) (.new memory held)
      s.results = fifo.results ∧ (∀ x, s.memory.objects x = fifo.object x) ∧
        (Equivalence (fun e1 e2 => cmp.getD cmpDefault e1 e2 ≠ 0) →
          Distinct (FifoSet.Same (cmp.getD cmpDefault) fifo.values) fifo.elements) := by
  obtain ⟨s, l, hrun, -, hs, hdistinct⟩ :=
    run_simulates ops (simulates_new h hheld) hok (by simpa using hfuel)
  exact ⟨s, hrun, hs.results, hs.object, fun he => hdistinct he List.Pairwise.nil⟩

def oneObject : Memory Nat where
  nodes := fun _ => none
  objects := fun x => if x = 10 then some { referenceCount := 0, value := 7 } else none

theorem oneObject_counted : oneObject.Counted fun _ => 0 := by
  refine ⟨rfl, fun x object hobject => ?_⟩
  simp only [oneObject] at hobject
  split_ifs at hobject
  rw [← Option.some.inj hobject]

def cmpValue (e1 e2 : Nat × Option Nat) : Int := if e1.2 = e2.2 then 1 else 0

/-- The object that has been popped goes with its last reference, and its like comes in. -/
def valueOps : List (QueueSetOp Nat) :=
  [.add 1 10, .create 20 7, .add 2 20, .create 30 8, .add 2 30, .hold 30, .pop, .release 10, .add 1 20, .foreach]

theorem queue_set_refines_value : ∃ s,
    GuardedRun.run (step 11) (new oneObject (fun _ => 0) (some cmpValue) 77) valueOps = some s ∧
      s.results = [[1], [0], [1], [10], [1], [30, 20]] := by
  obtain ⟨s, hrun, hresults, -⟩ := queue_set_refines 11 77 (some cmpValue) valueOps
    oneObject_counted (fun _ _ _ => rfl) (by decide +kernel) (by decide)
  exact ⟨s, hrun, hresults.trans (by decide +kernel)⟩

/-- `queue_set_free` gives back every node the set has made and one reference for each
element: what is left of an object are the references of the caller. -/
theorem queue_set_freed (fuel tail : Nat) (cmp : Option (Nat × Option α → Nat × Option α → Int))
    (ops : List (QueueSetOp α)) (h : memory.Counted held)
    (hheld : ∀ x, x ≠ 0 → memory.objects x = none → held x = 0)
    (hok : AllOk (step fuel) OpOk (new memory held cmp tail) ops) (hfuel : ops.length < fuel) :
    ∃ s other, GuardedRun.run (step fuel) (new memory held cmp tail) ops = some s ∧
      s.set.queueSetFree fuel s.memory = some other ∧ other.nodes = memory.nodes ∧
      let fifo := ops.foldl (FifoSet.apply (cmp.getD cmpDefault)) (.new memory held)
      ∀ x, other.objects x = if x ∈ fifo.elements ∧ fifo.held x = 0 then none
        else (fifo.values x).map fun value => { referenceCount := fifo.held x, value := value } := by
  obtain ⟨s, l, hrun, hlength, hs, -⟩ :=
    run_simulates ops (simulates_new h hheld) hok (by simpa using hfuel)
  have hs : Simulates memory.nodes s (ops.foldl (FifoSet.apply (cmp.getD cmpDefault)) (.new memory held)) l := hs
  rw [List.length_nil, Nat.zero_add] at hlength
  obtain ⟨other, hfree, hcounted, hnodes, hvalues⟩ := LinkedVector.freeFrom_spec hs.holds.chain hs.holds.nodup
    hs.holds.counted hs.holds.live (Nat.lt_of_le_of_lt hlength hfuel)
  refine ⟨s, other, hrun, hfree, funext fun x => ?_, fun x => ?_⟩
  · rw [hnodes x]
    split_ifs with hx
    · exact (hs.fresh x hx).symm
    · exact hs.nodes x hx
  · have hvalue := hvalues x
    rw [hs.elements, hs.values] at hvalue
    rw [hcounted.object x, hvalue]
    split_ifs <;> rfl

theorem queue_set_freed_value : ∃ s other,
    GuardedRun.run (step 11) (new oneObject (fun _ => 0) (some cmpValue) 77) valueOps = some s ∧
      s.set.queueSetFree 11 s.memory = some other ∧ other.nodes = oneObject.nodes ∧
      other.objects 20 = none ∧ other.objects 30 = some { referenceCount := 1, value := 8 } := by
  obtain ⟨s, other, hrun, hfree, hnodes, hobjects⟩ := queue_set_freed 11 77 (some cmpValue)
    valueOps oneObject_counted (fun _ _ _ => rfl) (by decide +kernel) (by decide)
  exact ⟨s, other, hrun, hfree, hnodes, (hobjects 20).trans (by decide +kernel),
    (hobjects 30).trans (by decide +kernel)⟩

end QueueSetRun

end AutoGentoo
