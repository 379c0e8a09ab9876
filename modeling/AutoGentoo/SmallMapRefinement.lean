import AutoGentoo.GuardedRun
import AutoGentoo.SmallMap
import AutoGentoo.VectorRefinement

/-! A small map against the list of insertions that have not been deleted. -/

namespace AutoGentoo

open OwnedCells

/-- An insertion, with the addresses of the entry and of its key, and the number that is in
the memory of the entry where its count is. -/
structure Insertion where
  key : List Char
  data : Nat
  x : Nat
  y : Nat
  count : Nat
  deriving DecidableEq, Repr

inductive SmallMapOp
  | insert (i : Insertion)
  | delete (key : List Char)
  | deleteIndex (index : Nat)
  deriving DecidableEq, Repr

namespace Insertion

/-- The entry once the vector has its reference. -/
def cell (i : Insertion) : Nat × SmallMapKey :=
  (i.x, { referenceCount := (i.count + 1) % 2 ^ 64, key := i.y, dataPtr := i.data })

def keyCell (i : Insertion) : Nat × List Char := (i.y, i.key)

/-- The vector's reference is not the last. -/
def Stays (i : Insertion) : Prop := i.count ≠ 0 ∧ i.count + 1 ≠ 2 ^ 64

instance (i : Insertion) : Decidable i.Stays := inferInstanceAs (Decidable (_ ∧ _))

end Insertion

namespace SmallMap

def step (self : SmallMap) : SmallMapOp → Option SmallMap
  | .insert i => self.smallMapInsert i.key i.data i.x i.y i.count
  | .delete key => (self.smallMapDelete key).map Prod.snd
  | .deleteIndex index => (self.smallMapDeleteIndex index).map Prod.snd

/-- The addresses are new, and the count is a U64. -/
def OpOk (self : SmallMap) : SmallMapOp → Prop
  | .insert i => Fresh self.entries i.x ∧ Fresh self.keys i.y ∧ i.count < 2 ^ 64
  | .delete _ | .deleteIndex _ => True

instance OpOk.decidable (self : SmallMap) : (op : SmallMapOp) → Decidable (OpOk self op)
  | .insert i => inferInstanceAs (Decidable ((i.x ≠ 0 ∧ self.entries i.x = none) ∧
      (i.y ≠ 0 ∧ self.keys i.y = none) ∧ i.count < 2 ^ 64))
  | .delete _ | .deleteIndex _ => isTrue trivial

/-- The insertions that have not been deleted; a key deletes the first that has it. -/
def apply (l : List Insertion) : SmallMapOp → List Insertion
  | .insert i => l ++ [i]
  | .delete key => l.eraseP fun i => i.key = key
  | .deleteIndex index => l.eraseIdx index

def listStep (l : List Insertion) (op : SmallMapOp) : Option (List Insertion) := some (apply l op)

/-- The data of the latest insertion of a key, or NULL. -/
def latest (l : List Insertion) (key : List Char) : Nat :=
  ((l.reverse.find? fun i => i.key = key).map Insertion.data).getD 0

/-- The vector has room to count one more, a key that is there is inserted with the data it
has, and what is deleted stays allocated. -/
def StepOk (l : List Insertion) : SmallMapOp → Prop
  | .insert i => l.length + 1 < 2 ^ 31 ∧ ∀ old ∈ l, old.key = i.key → old.data = i.data
  | .delete key => ∀ i ∈ l.find? fun i => i.key = key, i.Stays
  | .deleteIndex index => ∀ i ∈ l[index]?, i.Stays

instance StepOk.decidable (l : List Insertion) : (op : SmallMapOp) → Decidable (StepOk l op)
  | .insert i => inferInstanceAs (Decidable
      (l.length + 1 < 2 ^ 31 ∧ ∀ old ∈ l, old.key = i.key → old.data = i.data))
  | .delete key => inferInstanceAs (Decidable (∀ i ∈ l.find? fun i => i.key = key, i.Stays))
  | .deleteIndex index => inferInstanceAs (Decidable (∀ i ∈ l[index]?, i.Stays))

structure Represents (map : SmallMap) (l : List Insertion) : Prop where
  vector : map.vector.Holds (l.map Insertion.x)
  opts : map.vector.opts = 0
  entries : Has map.entries (l.map Insertion.cell)
  keys : Has map.keys (l.map Insertion.keyCell)
  counts : ∀ i ∈ l, i.count < 2 ^ 64

variable {self : SmallMap} {l : List Insertion}

theorem represents_new (startSize : Nat) (counts : RefCounts Nat) :
    (smallMapNew startSize counts).Represents [] where
  vector := Vector.holds_allocateToSize (Vector.holds_new vectorUnordered) startSize
  opts := rfl
  entries := has_nil _
  keys := has_nil _
  counts := by simp

theorem Represents.middle {front back : List Insertion} {i : Insertion}
    (h : Represents self (front ++ i :: back)) :
    Has self.entries (i.cell :: (front ++ back).map Insertion.cell) ∧
      Has self.keys (i.keyCell :: (front ++ back).map Insertion.keyCell) :=
  ⟨h.entries.perm (List.perm_middle.map Insertion.cell), h.keys.perm (List.perm_middle.map Insertion.keyCell)⟩

theorem insert_spec (h : Represents self l) {i : Insertion} (hok : self.OpOk (.insert i))
    (hlen : l.length + 1 < 2 ^ 31) :
    ∃ after, self.step (.insert i) = some after ∧ Represents after (l ++ [i]) := by
  obtain ⟨hx, hy, hcount⟩ := hok
  obtain ⟨v, hadd, hv, hopts⟩ := Vector.vectorAdd_spec h.vector (by rwa [List.length_map]) i.x
  let entries := put self.entries i.x { referenceCount := i.count, key := i.y, dataPtr := i.data }
  have hnew : Has entries ((i.x, { referenceCount := i.count, key := i.y, dataPtr := i.data }) ::
      l.map Insertion.cell) := h.entries.alloc hx _
  have hincref : incref { self with entries := entries, keys := put self.keys i.y i.key } i.x =
      some { self with
        entries := put entries i.x { referenceCount := (i.count + 1) % 2 ^ 64, key := i.y, dataPtr := i.data }
        keys := put self.keys i.y i.key } := by
    rw [incref, if_neg hx.1]
    dsimp only
    rw [hnew.read]
    rfl
  refine ⟨{ self with
    vector := v
    entries := put entries i.x { referenceCount := (i.count + 1) % 2 ^ 64, key := i.y, dataPtr := i.data }
    keys := put self.keys i.y i.key }, ?_, ?_, hopts.trans h.opts, ?_, ?_, ?_⟩
  · rw [step, smallMapInsert, vectorAdd, hincref, Option.bind_some]
    dsimp only
    rw [hadd]
    rfl
  · rw [List.map_append]
    exact hv
  · rw [List.map_append]
    exact (hnew.write _).perm (List.perm_append_singleton _ _).symm
  · rw [List.map_append]
    exact (h.keys.alloc hy i.key).perm (List.perm_append_singleton _ _).symm
  · intro j hj
    rcases List.mem_append.mp hj with hj | hj
    · exact h.counts j hj
    · rwa [List.mem_singleton.mp hj]

theorem insert_full (h : Represents self l) (hfull : 2 ^ 31 ≤ l.length + 1) (i : Insertion) :
    self.step (.insert i) = none := by
  have hadd : ∀ x, Vector.vectorAdd self.vector x = none :=
    Vector.vectorAdd_full h.vector (by rwa [List.length_map])
  rw [step, smallMapInsert, vectorAdd, incref]
  split_ifs with hx
  · rw [Option.bind_some]
    dsimp only
    rw [hadd]
    rfl
  · dsimp only
    rw [put, Function.update_self, Option.map_some, Option.bind_some]
    dsimp only
    rw [hadd]
    rfl

section Entry

variable {front back : List Insertion} {i : Insertion}

theorem Represents.get (h : Represents self (front ++ i :: back)) :
    Vector.vectorGet self.vector front.length = some i.x := by
  have hvector := h.vector
  rw [List.map_append, List.map_cons] at hvector
  have hget := hvector.get
  rwa [List.length_map] at hget

/-- The vector gives the entry up, and its key is freed. -/
theorem deleteEntry_eq (h : Represents self (front ++ i :: back)) :
    ∃ v, Vector.Holds v ((front ++ back).map Insertion.x) ∧ v.opts = self.vector.opts ∧
      self.deleteEntry front.length i.x =
        (decref { self with vector := v, keys := Function.update self.keys i.y none } i.x).bind fun self =>
          (self.entries i.x).map fun entry => (entry.dataPtr, self) := by
  obtain ⟨hentries, hkeys⟩ := h.middle
  have hvector := h.vector
  rw [List.map_append, List.map_cons] at hvector
  obtain ⟨v, hremove, hv, hopts⟩ := Vector.vectorRemove_spec hvector (by rw [h.opts]; rfl)
  rw [List.length_map] at hremove
  refine ⟨v, by rwa [List.map_append], hopts, ?_⟩
  rw [deleteEntry, show self.entries i.x = some i.cell.2 from hentries.read, Option.bind_some]
  dsimp only [Insertion.cell]
  rw [hkeys.free.1, Option.bind_some, vectorRemove]
  dsimp only
  rw [hremove, Option.bind_some]

theorem deleteEntry_stays (h : Represents self (front ++ i :: back)) (hi : i.Stays) :
    ∃ after, self.deleteEntry front.length i.x = some (i.data, after) ∧
      Represents after (front ++ back) := by
  obtain ⟨hentries, hkeys⟩ := h.middle
  obtain ⟨v, hv, hopts, hdelete⟩ := deleteEntry_eq h
  have hlt : i.count < 2 ^ 64 := h.counts i (by simp)
  obtain ⟨hzero, hwrap⟩ := hi
  have hcount : (i.count + 1) % 2 ^ 64 = i.count + 1 := Nat.mod_eq_of_lt (by omega)
  have hread : self.entries i.x = some { referenceCount := i.count + 1, key := i.y, dataPtr := i.data } := by
    rw [← hcount]
    exact hentries.read
  let keys := Function.update self.keys i.y none
  let entries := put self.entries i.x { referenceCount := i.count, key := i.y, dataPtr := i.data }
  have hdecref : decref { self with vector := v, keys := keys } i.x =
      some { self with vector := v, entries := entries, keys := keys } := by
    rw [decref, if_neg hentries.ne_zero]
    dsimp only
    rw [hread, Option.bind_some, if_neg (Nat.succ_ne_zero _)]
    dsimp only
    rw [Nat.add_sub_cancel, if_neg hzero]
  have hwrite := hentries.write { referenceCount := i.count, key := i.y, dataPtr := i.data }
  have hafter : entries i.x = some { referenceCount := i.count, key := i.y, dataPtr := i.data } := hwrite.read
  refine ⟨{ self with vector := v, entries := entries, keys := keys }, ?_, hv, hopts.trans h.opts,
    hwrite.tail, hkeys.free.2, fun j hj => h.counts j ?_⟩
  · rw [hdelete, hdecref, Option.bind_some]
    dsimp only
    rw [hafter]
    rfl
  · exact List.perm_middle.mem_iff.mpr (List.mem_cons_of_mem i hj)

/-- The key is freed a second time with the entry. -/
theorem deleteEntry_freed (h : Represents self (front ++ i :: back)) (hi : ¬ i.Stays) :
    self.deleteEntry front.length i.x = none := by
  obtain ⟨hentries, hkeys⟩ := h.middle
  obtain ⟨v, -, -, hdelete⟩ := deleteEntry_eq h
  have hlt : i.count < 2 ^ 64 := h.counts i (by simp)
  have hread : self.entries i.x =
      some { referenceCount := (i.count + 1) % 2 ^ 64, key := i.y, dataPtr := i.data } := hentries.read
  let keys := Function.update self.keys i.y none
  have hfreed : free keys i.y = none := free_freed self.keys hkeys.ne_zero
  have hdecref : decref { self with vector := v, keys := keys } i.x = none := by
    rw [decref, if_neg hentries.ne_zero]
    dsimp only
    rw [hread, Option.bind_some]
    by_cases hzero : (i.count + 1) % 2 ^ 64 = 0
    · rw [if_pos hzero, smallMapKeyFree]
      dsimp only
      rw [hread, Option.bind_some]
      dsimp only
      rw [hfreed]
      rfl
    · have hone : (i.count + 1) % 2 ^ 64 - 1 = 0 := by
        by_contra hne
        exact hi ⟨by omega, by omega⟩
      rw [if_neg hzero]
      dsimp only
      rw [if_pos hone, smallMapKeyFree]
      dsimp only
      rw [put, Function.update_self, Option.bind_some]
      dsimp only
      rw [hfreed]
      rfl
  rw [hdelete, hdecref]
  rfl

end Entry

theorem Represents.searches (h : Represents self l) (key : List Char) :
    Searches (self.findKey key) l (fun i => i.key = key) (fun index i => some (some (index, i.x))) (some none) := by
  have hturn : ∀ front i back count, l = front ++ i :: back → self.findKey key (count + 1) front.length =
      if key = i.key then some (some (front.length, i.x)) else self.findKey key count (front.length + 1) := by
    rintro front i back count rfl
    obtain ⟨hentries, hkeys⟩ := h.middle
    have hread : self.entries i.x =
        some { referenceCount := (i.count + 1) % 2 ^ 64, key := i.y, dataPtr := i.data } := hentries.read
    have hkey : self.keys i.y = some i.key := hkeys.read
    rw [findKey, h.get, Option.bind_some, hread, Option.bind_some]
    dsimp only
    rw [hkey, Option.bind_some]
  exact ⟨fun _ => rfl, fun front i back count hl hi => (hturn front i back count hl).trans (if_pos hi.symm),
    fun front i back count hl hi => (hturn front i back count hl).trans (if_neg (Ne.symm hi))⟩

theorem find_split {key : List Char} {i : Insertion} (h : (l.find? fun i => i.key = key) = some i) :
    i.key = key ∧ ∃ front back, l = front ++ i :: back ∧ ∀ j ∈ front, j.key ≠ key := by
  obtain ⟨hkey, front, back, hl, hfront⟩ := List.find?_eq_some_iff_append.mp h
  exact ⟨of_decide_eq_true hkey, front, back, hl, fun j hj => by simpa using hfront j hj⟩

theorem find_none {key : List Char} (h : (l.find? fun i => i.key = key) = none) :
    ∀ i ∈ l, i.key ≠ key := fun i hi => by simpa using List.find?_eq_none.mp h i hi

theorem Represents.n (h : Represents self l) : self.vector.n = l.length := by
  rw [h.vector.n, List.length_map]

theorem Represents.find (h : Represents self l) {key : List Char}
    (hnone : (l.find? fun i => i.key = key) = none) : self.findKey key self.vector.n 0 = some none := by
  rw [h.n]
  exact (h.searches key).none (find_none hnone)

theorem Represents.find_first {front back : List Insertion} {i : Insertion}
    (h : Represents self (front ++ i :: back)) (hfirst : ∀ j ∈ front, j.key ≠ i.key) :
    self.findKey i.key self.vector.n 0 = some (some (front.length, i.x)) := by
  rw [h.n]
  exact (h.searches i.key).first rfl hfirst

theorem smallMapGet_eq (h : Represents self l) (key : List Char) :
    self.smallMapGet key = some (((l.find? fun i => i.key = key).map Insertion.data).getD 0) := by
  cases hfind : l.find? fun i => i.key = key with
  | none =>
    rw [smallMapGet, h.find hfind]
    rfl
  | some i =>
    obtain ⟨rfl, front, back, rfl, hfront⟩ := find_split hfind
    have hread : self.entries i.x = some i.cell.2 := h.middle.1.read
    rw [smallMapGet, h.find_first hfront, Option.bind_some]
    dsimp only
    rw [hread]
    rfl

theorem apply_delete {front back : List Insertion} {i : Insertion} (hfirst : ∀ j ∈ front, j.key ≠ i.key) :
    apply (front ++ i :: back) (.delete i.key) = front ++ back := by
  rw [apply, List.eraseP_append_right _ (by simpa using hfirst), List.eraseP_cons_of_pos (by simp)]

/-- A deletion that deletes nothing, or an entry that stays allocated. -/
theorem delete_spec (h : Represents self l) {op : SmallMapOp} (hdelete : ∀ i, op ≠ .insert i)
    (hop : StepOk l op) : ∃ after, self.step op = some after ∧ Represents after (apply l op) := by
  cases op with
  | insert i => exact absurd rfl (hdelete i)
  | delete key =>
    cases hfind : l.find? fun i => i.key = key with
    | none =>
      refine ⟨self, ?_, ?_⟩
      · rw [step, smallMapDelete, h.find hfind]
        rfl
      · rw [apply, List.eraseP_of_forall_not (by simpa using find_none hfind)]
        exact h
    | some i =>
      have hi : i.Stays := hop i hfind
      obtain ⟨rfl, front, back, rfl, hfront⟩ := find_split hfind
      obtain ⟨after, hentry, hafter⟩ := deleteEntry_stays h hi
      refine ⟨after, ?_, by rwa [apply_delete hfront]⟩
      rw [step, smallMapDelete, h.find_first hfront, Option.bind_some]
      dsimp only
      rw [hentry]
      rfl
  | deleteIndex index =>
    by_cases hindex : index < l.length
    · obtain ⟨front, i, back, rfl, rfl, hi⟩ := Vector.exists_split hindex
      obtain ⟨after, hentry, hafter⟩ := deleteEntry_stays h (hop i hi)
      refine ⟨after, ?_, ?_⟩
      · rw [step, smallMapDeleteIndex, if_neg (by rw [h.n]; omega), h.get, Option.bind_some, hentry]
        rfl
      · rwa [apply, Vector.eraseIdx_split]
    · have hout : l.length ≤ index := Nat.le_of_not_lt hindex
      refine ⟨self, ?_, ?_⟩
      · rw [step, smallMapDeleteIndex, if_pos (h.n ▸ hout)]
        rfl
      · rwa [apply, List.eraseIdx_of_length_le hout]

/-- A step on an entry whose memory does not have such a count frees its key twice. -/
theorem delete_freed (h : Represents self l) {op : SmallMapOp} (hdelete : ∀ i, op ≠ .insert i)
    (hop : ¬ StepOk l op) : self.step op = none := by
  cases op with
  | insert i => exact absurd rfl (hdelete i)
  | delete key =>
    simp only [StepOk, not_forall] at hop
    obtain ⟨i, hfind, hi⟩ := hop
    obtain ⟨rfl, front, back, rfl, hfront⟩ := find_split hfind
    rw [step, smallMapDelete, h.find_first hfront, Option.bind_some]
    dsimp only
    rw [deleteEntry_freed h hi]
    rfl
  | deleteIndex index =>
    simp only [StepOk, not_forall] at hop
    obtain ⟨i, hindex, hi⟩ := hop
    have hlt : index < l.length := (List.getElem?_eq_some_iff.mp hindex).1
    obtain ⟨front, j, back, rfl, rfl, hj⟩ := Vector.exists_split hlt
    obtain rfl := Option.some.inj (hj.symm.trans hindex)
    rw [step, smallMapDeleteIndex, if_neg (by rw [h.n]; omega), h.get, Option.bind_some,
      deleteEntry_freed h hi]
    rfl

/-- A key has one data, however often it is there. -/
def Uniform (l : List Insertion) : Prop := ∀ i ∈ l, ∀ j ∈ l, i.key = j.key → i.data = j.data

theorem latest_concat (l : List Insertion) (i : Insertion) : latest (l ++ [i]) i.key = i.data := by
  simp [latest]

theorem Uniform.latest_eq (h : Uniform l) (key : List Char) :
    latest l key = ((l.find? fun i => i.key = key).map Insertion.data).getD 0 := by
  rw [latest]
  cases hfind : l.find? fun i => i.key = key with
  | none =>
    have hreverse : (l.reverse.find? fun i => i.key = key) = none := by
      rw [List.find?_eq_none]
      exact fun i hi => by simpa using find_none hfind i (List.mem_reverse.mp hi)
    rw [hreverse]
  | some i =>
    cases hreverse : l.reverse.find? fun i => i.key = key with
    | none =>
      have hi := List.mem_reverse.mpr (List.mem_of_find?_eq_some hfind)
      exact absurd (find_split hfind).1 (find_none hreverse i hi)
    | some j =>
      have hi := List.mem_of_find?_eq_some hfind
      have hj := List.mem_reverse.mp (List.mem_of_find?_eq_some hreverse)
      exact h j hj i hi ((find_split hreverse).1.trans (find_split hfind).1.symm)

theorem Uniform.subset (h : Uniform l) {l' : List Insertion} (hsub : l' ⊆ l) : Uniform l' :=
  fun i hi j hj => h i (hsub hi) j (hsub hj)

theorem Uniform.apply (h : Uniform l) {op : SmallMapOp} (hop : StepOk l op) : Uniform (apply l op) := by
  cases op with
  | insert i =>
    intro a ha b hb hkey
    rcases List.mem_append.mp ha with hal | hai <;> rcases List.mem_append.mp hb with hbl | hbi
    · exact h a hal b hbl hkey
    · obtain rfl := List.mem_singleton.mp hbi
      exact hop.2 a hal hkey
    · obtain rfl := List.mem_singleton.mp hai
      exact (hop.2 b hbl hkey.symm).symm
    · rw [List.mem_singleton.mp hai, List.mem_singleton.mp hbi]
  | delete key => exact h.subset List.eraseP_subset
  | deleteIndex index => exact h.subset List.eraseIdx_subset

/-- The map gives the latest data of every key. -/
def GivesLatest (self : SmallMap) (l : List Insertion) : Prop :=
  ∀ key, self.smallMapGet key = some (latest l key)

theorem Represents.givesLatest (h : Represents self l) (hl : Uniform l) : GivesLatest self l :=
  fun key => by rw [smallMapGet_eq h, hl.latest_eq]

theorem step_ok (h : Represents self l) {op : SmallMapOp} (hok : self.OpOk op) (hop : StepOk l op) :
    ∃ after, self.step op = some after ∧ Represents after (apply l op) := by
  cases op with
  | insert i => exact insert_spec h hok hop.1
  | delete key => exact delete_spec h (by simp) hop
  | deleteIndex index => exact delete_spec h (by simp) hop

/-- A step that is defined and leaves every key with its latest data meets the condition. -/
theorem stepOk_of_latest (h : Represents self l) (hl : Uniform l) {op : SmallMapOp} (hok : self.OpOk op)
    {after : SmallMap} (hstep : self.step op = some after) (hlatest : GivesLatest after (apply l op)) :
    StepOk l op := by
  by_contra hop
  cases op with
  | insert i =>
    by_cases hlen : l.length + 1 < 2 ^ 31
    · obtain ⟨after', hstep', hafter⟩ := insert_spec h hok hlen
      obtain rfl := Option.some.inj (hstep.symm.trans hstep')
      refine hop ⟨hlen, fun old hold hkey => ?_⟩
      -- the first insertion of the key is an old one, with the data of the old ones
      have hget := (smallMapGet_eq hafter i.key).symm.trans (hlatest i.key)
      rw [apply, latest_concat, List.find?_append] at hget
      cases hfind : l.find? fun j => j.key = i.key with
      | none => exact absurd hkey (find_none hfind old hold)
      | some first =>
        rw [hfind, Option.some_or, Option.map_some, Option.getD_some] at hget
        have hfirst := List.mem_of_find?_eq_some hfind
        rw [← Option.some.inj hget]
        exact hl old hold first hfirst (hkey.trans (find_split hfind).1.symm)
    · rw [insert_full h (Nat.le_of_not_lt hlen)] at hstep
      exact absurd hstep (by simp)
  | delete key =>
    rw [delete_freed h (by simp) hop] at hstep
    exact absurd hstep (by simp)
  | deleteIndex index =>
    rw [delete_freed h (by simp) hop] at hstep
    exact absurd hstep (by simp)

/-- After every beginning of the sequence. -/
def AlwaysLatest (self : SmallMap) (l : List Insertion) (ops : List SmallMapOp) : Prop :=
  ∀ front, front <+: ops → ∃ s, GuardedRun.run step self front = some s ∧
    GivesLatest s (front.foldl apply l)

theorem alwaysLatest_iff (h : Represents self l) (hl : Uniform l) (ops : List SmallMapOp)
    (hok : GuardedRun.AllOk step OpOk self ops) :
    AlwaysLatest self l ops ↔ GuardedRun.AllOk listStep StepOk l ops := by
  induction ops generalizing self l with
  | nil =>
    refine iff_of_true (fun front hfront => ?_) trivial
    obtain rfl := List.prefix_nil.mp hfront
    exact ⟨self, rfl, h.givesLatest hl⟩
  | cons op ops ih =>
    have hrun : ∀ {mid : SmallMap} (front : List SmallMapOp), self.step op = some mid →
        GuardedRun.run step self (op :: front) = GuardedRun.run step mid front := by
      intro mid front hstep
      rw [GuardedRun.run, hstep, Option.bind_some]
    constructor
    · intro hall
      have hop : StepOk l op := by
        obtain ⟨after, hafter, hlatest⟩ := hall [op] ⟨ops, rfl⟩
        obtain ⟨after', hstep, hrest⟩ := Option.bind_eq_some_iff.mp hafter
        obtain rfl := Option.some.inj hrest
        exact stepOk_of_latest h hl hok.1 hstep hlatest
      obtain ⟨mid, hstep, hmid⟩ := step_ok h hok.1 hop
      refine ⟨hop, fun t ht => ?_⟩
      obtain rfl := Option.some.inj ht
      refine (ih hmid (hl.apply hop) (hok.2 mid hstep)).mp fun front hfront => ?_
      obtain ⟨s, hs, hlatest⟩ := hall (op :: front) ((List.prefix_cons_inj op).mpr hfront)
      exact ⟨s, (hrun front hstep).symm.trans hs, hlatest⟩
    · rintro ⟨hop, hrest⟩
      obtain ⟨mid, hstep, hmid⟩ := step_ok h hok.1 hop
      have hall := (ih hmid (hl.apply hop) (hok.2 mid hstep)).mpr (hrest _ rfl)
      intro front hfront
      cases front with
      | nil => exact ⟨self, rfl, h.givesLatest hl⟩
      | cons op' front =>
        obtain ⟨rfl, hbegins⟩ := List.cons_prefix_cons.mp hfront
        obtain ⟨s, hs, hlatest⟩ := hall front hbegins
        exact ⟨s, (hrun front hstep).trans hs, hlatest⟩

/-- On a new map every key gives its latest data all along, without memory being used
after it has been freed, just if every step meets the condition. -/
theorem small_map_latest_iff (startSize : Nat) (counts : RefCounts Nat) (ops : List SmallMapOp)
    (hok : GuardedRun.AllOk step OpOk (smallMapNew startSize counts) ops) :
    AlwaysLatest (smallMapNew startSize counts) [] ops ↔ GuardedRun.AllOk listStep StepOk [] ops :=
  alwaysLatest_iff (represents_new startSize counts) (by simp [Uniform]) ops hok

theorem small_map_latest_reinserted : AlwaysLatest (smallMapNew 0 ⟨fun _ => 1, []⟩) []
    [.insert ⟨"a".toList, 5, 1, 1, 9⟩, .insert ⟨"b".toList, 6, 2, 2, 9⟩, .delete "b".toList,
      .insert ⟨"b".toList, 7, 3, 2, 9⟩, .deleteIndex 0] :=
  (small_map_latest_iff 0 ⟨fun _ => 1, []⟩ _ (by decide)).mpr (by decide)

/-- A key that is inserted again keeps giving its first data. -/
theorem first_insertion_found : ¬ ∀ (startSize : Nat) (counts : RefCounts Nat) (ops : List SmallMapOp),
    GuardedRun.AllOk step OpOk (smallMapNew startSize counts) ops →
      AlwaysLatest (smallMapNew startSize counts) [] ops := by
  intro hall
  have hok : GuardedRun.AllOk step OpOk (smallMapNew 0 ⟨fun _ => 0, []⟩)
      [.insert ⟨"a".toList, 5, 1, 1, 9⟩, .insert ⟨"a".toList, 6, 2, 2, 9⟩] := by decide
  have hlatest := (alwaysLatest_iff (represents_new 0 ⟨fun _ => 0, []⟩) (by simp [Uniform]) _ hok).mp
    (hall 0 ⟨fun _ => 0, []⟩ _ hok)
  exact absurd hlatest (by decide)

end SmallMap

end AutoGentoo
