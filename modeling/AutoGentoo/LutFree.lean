import AutoGentoo.LutCounts
import Mathlib.Data.List.ReduceOption

/-! `lut_free`: a walk over the buckets with a U32, against a size that is a U64. -/

namespace AutoGentoo

namespace Lut

/-- `lut_node_free`: what is behind a node goes first. -/
def lutNodeFree : List LutNode → RefCounts Nat → RefCounts Nat
  | [], counts => counts
  | node :: next, counts => releaseData node.flags node.data (lutNodeFree next counts)

/-- The loop of `lut_free`. A bucket is `none` where the chain it points to has been freed. -/
structure Freeing where
  table : List (Option (List LutNode))
  size : Nat
  i : Nat
  counts : RefCounts Nat

namespace Freeing

/-- The body of the loop and its `i++`. There is no result where a chain would be freed
again. -/
def turn (self : Freeing) : Option Freeing :=
  match self.table[self.i]? with
  | some (some []) => some { self with i := (self.i + 1) % 2 ^ 32 }
  | some (some (node :: next)) => some { self with
      table := self.table.set self.i none
      i := (self.i + 1) % 2 ^ 32
      counts := lutNodeFree (node :: next) self.counts }
  | _ => none

/-- There is no result where the loop does not end within so many turns. -/
def loop : Nat → Freeing → Option Freeing
  | 0, _ => none
  | fuel + 1, self => if self.i < self.size then self.turn.bind (loop fuel) else some self

/-- The nodes that are not freed. -/
def left (self : Freeing) : List LutNode := self.table.reduceOption.flatten

/-- Those outside of the bucket at which the loop is. -/
def others (self : Freeing) : List LutNode := (self.table.set self.i none).reduceOption.flatten

end Freeing

def freeing (self : Lut) (counts : RefCounts Nat) : Freeing where
  table := self.table.map some
  size := self.size
  i := 0
  counts := counts

def lutFree (fuel : Nat) (self : Lut) (counts : RefCounts Nat) : Option (RefCounts Nat) :=
  (Freeing.loop fuel (freeing self counts)).map Freeing.counts

namespace Freeing

variable {self after : Freeing} {first counts : RefCounts Nat} {outside : Nat → Nat}

/-- The loop comes to such a state. -/
def Visited (first self : Freeing) : Prop :=
  GuardedRun.Reaches (fun (f : Freeing) (_ : Unit) => f.turn) (fun f _ => f.i < f.size) first self

theorem lutNodeFree_python {chain : List LutNode}
    (hpy : ∀ node ∈ chain, node.flags &&& lutFlagPython ≠ 0) (counts : RefCounts Nat) :
    lutNodeFree chain counts = (chain.reverse.map LutNode.data).foldl RefCounts.release counts := by
  induction chain with
  | nil => rfl
  | cons node chain ih =>
    obtain ⟨hnode, hrest⟩ := List.forall_mem_cons.mp hpy
    rw [lutNodeFree, releaseData_python hnode, ih hrest, List.reverse_cons, List.map_append,
      List.foldl_append]
    rfl

theorem left_perm {chain : List LutNode} (h : self.table[self.i]? = some (some chain)) :
    self.left.Perm (chain ++ self.others) := by
  obtain ⟨hi, hat⟩ := List.getElem?_eq_some_iff.mp h
  obtain ⟨front, back, htable, hset⟩ : ∃ front back, self.table = front ++ some chain :: back ∧
      self.table.set self.i none = front ++ none :: back := by
    refine ⟨self.table.take self.i, self.table.drop (self.i + 1), ?_,
      List.set_eq_take_append_cons_drop.trans (if_pos hi)⟩
    rw [← hat, List.getElem_cons_drop, List.take_append_drop]
  rw [left, others, hset, htable]
  simp only [List.reduceOption_append, List.reduceOption_cons_of_some, List.reduceOption_cons_of_none,
    List.flatten_append, List.flatten_cons]
  exact List.perm_append_comm_assoc _ _ _

/-- Every reference is outside or that of a node not yet freed, and what has been freed
is held by none of these. -/
structure Owned (first : RefCounts Nat) (outside : Nat → Nat) (walk : Freeing) : Prop where
  python : ∀ node ∈ walk.left, node.flags &&& lutFlagPython ≠ 0
  balanced : walk.counts.Balanced outside (walk.left.map LutNode.data)
  frees : first.FreesUnheld walk.counts outside (walk.left.map LutNode.data)

/-- So too inside a chain, where the end of it is freed already. -/
theorem Owned.within (ho : Owned first outside self) {front back : List LutNode}
    (h : self.table[self.i]? = some (some (front ++ back))) :
    (lutNodeFree back self.counts).Balanced outside ((front ++ self.others).map LutNode.data) ∧
      first.FreesUnheld (lutNodeFree back self.counts) outside
        ((front ++ self.others).map LutNode.data) := by
  have hperm := left_perm h
  have hpy : ∀ node ∈ back, node.flags &&& lutFlagPython ≠ 0 := fun node hn =>
    ho.python node (hperm.mem_iff.mpr (List.mem_append_left _ (List.mem_append_right front hn)))
  have hmove : self.left.Perm (back.reverse ++ (front ++ self.others)) := by
    refine hperm.trans ?_
    rw [← List.append_assoc]
    exact (List.perm_append_comm.trans ((List.reverse_perm back).symm.append_right front)).append_right _
  have hbalanced : self.counts.Balanced outside
      (back.reverse.map LutNode.data ++ (front ++ self.others).map LutNode.data) := by
    rw [← List.map_append]
    exact ho.balanced.perm (hmove.map LutNode.data)
  have hsub : ∀ x ∈ (front ++ self.others).map LutNode.data, x ∈ self.left.map LutNode.data := by
    intro x hx
    rw [(hmove.map LutNode.data).mem_iff, List.map_append]
    exact List.mem_append_right _ hx
  rw [lutNodeFree_python hpy]
  exact ⟨hbalanced.releaseAll, ho.frees.trans hbalanced.freesUnheld_releaseAll hsub⟩

theorem Owned.turn (ho : Owned first outside self) (h : self.turn = some after) :
    Owned first outside after := by
  rw [Freeing.turn] at h
  split at h
  · obtain rfl := Option.some.inj h
    exact ⟨ho.python, ho.balanced, ho.frees⟩
  · rename_i node next hat
    obtain rfl := Option.some.inj h
    have hwhole : self.table[self.i]? = some (some ([] ++ node :: next)) := hat
    obtain ⟨hbalanced, hfrees⟩ := ho.within hwhole
    exact ⟨fun x hx => ho.python x ((left_perm hat).mem_iff.mpr (List.mem_append_right _ hx)),
      hbalanced, hfrees⟩
  · exact absurd h (by simp)

theorem Owned.visited (ho : Owned first outside self) (h : Visited self after) :
    Owned first outside after :=
  h.invariant (Owned first outside) ho fun _ _ _ hat _ hstep => hat.turn hstep

theorem Owned.loop (ho : Owned first outside self) {fuel : Nat} (h : loop fuel self = some after) :
    Owned first outside after := by
  induction fuel generalizing self with
  | zero => exact absurd h (by simp [Freeing.loop])
  | succ fuel ih =>
    rw [Freeing.loop] at h
    split_ifs at h
    · obtain ⟨next, hturn, hloop⟩ := Option.bind_eq_some_iff.mp h
      exact ih (ho.turn hturn) hloop
    · exact Option.some.inj h ▸ ho

/-! ### How the loop ends -/

/-- What is left of a bucket behind the loop. -/
def passed (chain : List LutNode) : Option (List LutNode) := if chain = [] then some [] else none

/-- The loop behind the first of the buckets. -/
def behind (done rest : List (List LutNode)) (counts : RefCounts Nat) : Freeing where
  table := done.map passed ++ rest.map some
  size := (done ++ rest).length
  i := done.length
  counts := counts

theorem turn_behind (done : List (List LutNode)) (chain : List LutNode) (rest : List (List LutNode))
    (counts : RefCounts Nat) (h : done.length + 1 < 2 ^ 32) :
    (behind done (chain :: rest) counts).turn =
      some (behind (done ++ [chain]) rest (lutNodeFree chain counts)) := by
  have hat : (behind done (chain :: rest) counts).table[(behind done (chain :: rest) counts).i]? =
      some (some chain) := by
    simp [behind]
  rw [Freeing.turn, hat]
  cases chain with
  | nil => simpa [behind, passed, lutNodeFree] using h
  | cons node next => simpa [behind, passed] using h

theorem loop_behind (done rest : List (List LutNode)) (counts : RefCounts Nat)
    (h : (done ++ rest).length < 2 ^ 32) :
    ∃ counts', loop (rest.length + 1) (behind done rest counts) =
      some (behind (done ++ rest) [] counts') := by
  induction rest generalizing done counts with
  | nil =>
    refine ⟨counts, ?_⟩
    rw [List.append_nil, Freeing.loop, if_neg (by simp [behind])]
  | cons chain rest ih =>
    have happend : done ++ chain :: rest = done ++ [chain] ++ rest := by simp
    obtain ⟨counts', hloop⟩ := ih (done ++ [chain]) (lutNodeFree chain counts) (happend ▸ h)
    have hlt : (behind done (chain :: rest) counts).i < (behind done (chain :: rest) counts).size := by
      simp [behind]
    rw [List.length_append, List.length_cons] at h
    refine ⟨counts', ?_⟩
    rw [List.length_cons, Freeing.loop, if_pos hlt, turn_behind done chain rest counts (by omega),
      Option.bind_some, hloop, happend]

theorem left_behind (done : List (List LutNode)) (counts : RefCounts Nat) :
    (behind done [] counts).left = [] := by
  rw [left, behind, List.map_nil, List.append_nil]
  induction done with
  | nil => rfl
  | cons chain done ih =>
    cases chain with
    | nil => exact ih
    | cons node next => exact ih

/-- The index stays below a size that it cannot reach. -/
theorem loop_wide (hsize : 2 ^ 32 ≤ self.size) (hi : self.i < 2 ^ 32) (fuel : Nat) :
    loop fuel self = none := by
  induction fuel generalizing self with
  | zero => rfl
  | succ fuel ih =>
    rw [loop, if_pos (Nat.lt_of_lt_of_le hi hsize)]
    cases hturn : self.turn with
    | none => rfl
    | some after =>
      have hkeeps : after.size = self.size ∧ after.i = (self.i + 1) % 2 ^ 32 := by
        rw [turn] at hturn
        split at hturn
        · exact Option.some.inj hturn ▸ ⟨rfl, rfl⟩
        · exact Option.some.inj hturn ▸ ⟨rfl, rfl⟩
        · exact absurd hturn (by simp)
      exact ih (hkeeps.1 ▸ hsize) (hkeeps.2 ▸ Nat.mod_lt _ (by decide))

end Freeing

variable {lut : Lut} {counts : RefCounts Nat} {outside : Nat → Nat}

theorem freeing_eq (lut : Lut) (hsize : lut.table.length = lut.size) (counts : RefCounts Nat) :
    freeing lut counts = Freeing.behind [] lut.table counts := by
  rw [freeing, Freeing.behind, ← hsize]
  rfl

theorem Owned.freeing (ho : Owned lut counts outside) :
    (freeing lut counts).Owned counts outside := by
  have hleft : (Lut.freeing lut counts).left = lut.table.flatten := by
    simp [Freeing.left, Lut.freeing, List.reduceOption, List.filterMap_map]
  refine ⟨fun node hn => ho.python node (hleft ▸ hn), ?_, .refl _ _ _⟩
  rw [hleft]
  exact ho.balanced

/-- The table can be freed, and that leaves the references outside. -/
def Freed (lut : Lut) (counts : RefCounts Nat) (outside : Nat → Nat) : Prop :=
  ∃ fuel after, lutFree fuel lut counts = some after ∧ ∀ x, x ≠ 0 → after.count x = outside x

theorem Freed.size {self : Lut} (h : Freed self counts outside) : self.size < 2 ^ 32 := by
  obtain ⟨fuel, after, hfree, -⟩ := h
  by_contra hwide
  have hnone : Freeing.loop fuel (Lut.freeing self counts) = none :=
    Freeing.loop_wide (Nat.le_of_not_lt hwide) (by decide : 0 < 2 ^ 32) fuel
  rw [lutFree, hnone] at hfree
  exact absurd hfree (by simp)

theorem Owned.freed (ho : Owned lut counts outside) (hsize : lut.size < 2 ^ 32) :
    Freed lut counts outside := by
  have htable := ho.shaped.table_size
  obtain ⟨counts', hloop⟩ := Freeing.loop_behind [] lut.table counts (by simpa [htable] using hsize)
  rw [← freeing_eq lut htable] at hloop
  refine ⟨_, counts', by rw [lutFree, hloop]; rfl, fun x hx => ?_⟩
  have hend := (ho.freeing.loop hloop).balanced x hx
  rw [Freeing.left_behind] at hend
  simpa [Freeing.behind] using hend

/-- After any run every reference is counted once, and the next step frees nothing that a
node holds; nor does freeing the table, at no node of it. The references outside are left
where the table has not too many buckets for the loop to end. -/
theorem lut_counts_owned_iff {size : Nat} (hs : 0 < size) (outside : Nat → Nat)
    (ops : List CountedStep) :
    ∃ s, GuardedRun.run Counted.step (Counted.new size outside) ops = some s ∧
      s.counts.Balanced s.outside s.lut.held ∧
      (∀ op, ∃ t, s.step op = some t ∧ s.counts.FreesUnheld t.counts t.outside t.lut.held) ∧
      (∀ walk front back, Freeing.Visited (freeing s.lut s.counts) walk →
        walk.table[walk.i]? = some (some (front ++ back)) →
        s.counts.FreesUnheld (lutNodeFree back walk.counts) s.outside
          ((front ++ walk.others).map LutNode.data)) ∧
      (Freed s.lut s.counts s.outside ↔ s.lut.size < 2 ^ 32) := by
  obtain ⟨s, hrun, ho⟩ := Counted.run_owned (Counted.new size outside) (owned_new hs outside) ops
  refine ⟨s, hrun, ho.balanced, fun op => ?_, fun walk front back hvisited hat => ?_,
    Freed.size, ho.freed⟩
  · obtain ⟨t, hstep, -, hfrees⟩ := Counted.step_owned ho op
    exact ⟨t, hstep, hfrees⟩
  · exact ((ho.freeing.visited hvisited).within hat).2

/-- A key set twice, first with another object, in a table of one bucket that grows. -/
theorem lut_counts_owned_again : ∃ s, GuardedRun.run Counted.step (Counted.new 1 fun _ => 1)
    [.insert "a".toList 1, .insert "a".toList 2, .drop 1, .insert "a".toList 2] = some s ∧
      s.counts.Balanced s.outside s.lut.held ∧ (Freed s.lut s.counts s.outside ↔ s.lut.size < 2 ^ 32) := by
  obtain ⟨s, hrun, hbalanced, -, -, hfreed⟩ := lut_counts_owned_iff Nat.one_pos (fun _ => 1)
    [.insert "a".toList 1, .insert "a".toList 2, .drop 1, .insert "a".toList 2]
  exact ⟨s, hrun, hbalanced, hfreed⟩

theorem insertNode_size {node : LutNode} {after : Lut} (h : insertNode lut node = some after) :
    after.size = lut.size := by
  rw [insertNode] at h
  split_ifs at h
  · exact Option.some.inj h ▸ rfl
  · obtain ⟨chain, -, rfl⟩ := Option.map_eq_some_iff.mp h
    rfl
  · exact Option.some.inj h ▸ rfl

/-- While there is room the table does not grow. -/
theorem Counted.insert_size {self after : Counted} {key : List Char} {data : Nat}
    (hroom : (self.lut.n + 1) % 2 ^ 32 < self.lut.reallocAt)
    (h : self.step (.insert key data) = some after) : after.lut.size = self.lut.size := by
  have hgrow : grow self.lut = some self.lut := if_neg (Nat.not_le_of_lt hroom)
  obtain ⟨result, hresult, rfl⟩ := Option.map_eq_some_iff.mp h
  simp only [lutInsertCounts, hgrow, Option.bind_eq_bind, Option.bind_some] at hresult
  obtain ⟨inserted, hinsert, hafter⟩ := Option.bind_eq_some_iff.mp hresult
  rw [← Option.some.inj hafter]
  exact insertNode_size hinsert

/-- One object in a table of `2 ^ 32` buckets. -/
theorem wide_lut_not_freed : ¬ ∀ (size : Nat) (outside : Nat → Nat) (ops : List CountedStep), 0 < size →
    ∃ s, GuardedRun.run Counted.step (Counted.new size outside) ops = some s ∧
      Freed s.lut s.counts s.outside := by
  intro hall
  obtain ⟨s, hrun, hfreed⟩ := hall (2 ^ 32) (fun _ => 1) [.insert "a".toList 1] (by decide)
  obtain ⟨t, hstep, hrest⟩ := Option.bind_eq_some_iff.mp hrun
  obtain rfl : t = s := Option.some.inj hrest
  let first := Counted.new (2 ^ 32) fun _ => 1
  have hroom : (first.lut.n + 1) % 2 ^ 32 < first.lut.reallocAt := by
    have hlow := (lutThreshold_bounds (2 ^ 32)).2
    show 1 < lutThreshold (2 ^ 32)
    omega
  have hsize : t.lut.size = first.lut.size := Counted.insert_size hroom hstep
  exact absurd (hsize ▸ hfreed.size) (Nat.lt_irrefl (2 ^ 32))

end Lut

end AutoGentoo
