import AutoGentoo.MapRefinement
import AutoGentoo.RefCounts
import AutoGentoo.GuardedRun
import AutoGentoo.Binary64

/-! The number of items that a hash map keeps, and the references its items hold. -/

namespace AutoGentoo

open GuardedRun

/-- A map among others who hold references. -/
structure CountedMap where
  map : Map
  counts : RefCounts Nat
  outside : Nat → Nat

/-- A call on the map, or somebody outside takes a reference or gives one up. -/
inductive MapUse
  | insert (key : List Char) (data : Nat)
  | remove (key : List Char)
  | hold (x : Nat)
  | drop (x : Nat)
  deriving DecidableEq, Repr

namespace CountedMap

open Map

/-- `map_insert` takes a reference, and none is released for data that is overwritten;
the reference of an item that is removed goes to the caller. -/
def step (self : CountedMap) : MapUse → CountedMap
  | .insert key data => { self with
      map := mapInsert self.map key data
      counts := self.counts.take data }
  | .remove key =>
    let r := mapRemove self.map key
    { self with
      map := r.1
      outside := Function.update self.outside r.2 (self.outside r.2 + 1) }
  | .hold x => { self with
      counts := self.counts.take x
      outside := Function.update self.outside x (self.outside x + 1) }
  | .drop x =>
    if self.outside x = 0 then self
    else { self with
      counts := self.counts.releaseUnsigned x
      outside := Function.update self.outside x (self.outside x - 1) }

/-- A new map, where every reference is outside. -/
def start (size : Nat) (threshold : Nat → Nat) (outside : Nat → Nat) : CountedMap where
  map := mapNew size threshold
  counts := { count := fun x => outside x, freed := [] }
  outside := outside

/-- What the items refer to. -/
def held (self : CountedMap) : List Nat := self.map.items.map MapItem.data

/-- `n` is the number of items, a map with room does not grow, and every reference is
counted once. -/
structure InOrder (state : CountedMap) : Prop where
  n : state.map.n = state.map.items.length
  room : state.map.items.length + 1 < state.map.reallocAt → state.map.grows = false
  counts : state.counts.Balanced state.outside state.held

/-- Only an empty map grows, only NULL is overwritten, the number of items fits into 32
bits, and no item is removed. -/
def KeepsOrder (self : CountedMap) : MapUse → Prop
  | .insert key _ => (self.map.grows = true → self.map.items = []) ∧ mapGet self.map key = 0 ∧
      (content self.map key = none → self.map.items.length + 1 < 2 ^ 32)
  | .remove key => content self.map key = none
  | .hold _ | .drop _ => True

instance KeepsOrder.decidable (s : CountedMap) : (op : MapUse) → Decidable (KeepsOrder s op)
  | .insert key _ => inferInstanceAs (Decidable ((s.map.grows = true → s.map.items = []) ∧
      mapGet s.map key = 0 ∧ (content s.map key = none → s.map.items.length + 1 < 2 ^ 32)))
  | .remove key => inferInstanceAs (Decidable (content s.map key = none))
  | .hold _ | .drop _ => isTrue trivial

variable {self : CountedMap}

theorem length_lt (hv : Valid self.map) (ho : InOrder self) : self.map.items.length < 2 ^ 32 :=
  ho.n ▸ hv.n_lt

/-- With the right count there is no growth while there is room. -/
theorem inOrder_of (hn : self.map.n = self.map.items.length) (hlt : self.map.items.length < 2 ^ 32)
    (hc : self.counts.Balanced self.outside self.held) : InOrder self := by
  refine ⟨hn, fun hroom => ?_, hc⟩
  rw [grows, hn, decide_eq_false_iff_not]
  omega

theorem grow_n (hv : Valid self.map) (ho : InOrder self) : self.map.grow.n =
    if self.map.grows then 2 * self.map.items.length % 2 ^ 32 else self.map.items.length := by
  rw [grow]
  split_ifs with h
  · have hg := mapRealloc_spec hv (Nat.mul_pos hv.size_pos Nat.two_pos)
    rw [hg.n, ho.n, ← Nat.two_mul]
  · exact ho.n

theorem inOrder_iff (hv : Valid self.map) : InOrder self ↔ self.map.n = self.map.items.length ∧
    self.counts.Balanced self.outside self.held :=
  ⟨fun ho => ⟨ho.n, ho.counts⟩, fun h => inOrder_of h.1 (h.1 ▸ hv.n_lt) h.2⟩

theorem inOrder_insert_iff (hv : Valid self.map) {key : List Char} {data : Nat} {map' : Map}
    (h : mapInsert self.map key data = map') : InOrder (self.step (.insert key data)) ↔
      map'.n = map'.items.length ∧
        (self.counts.take data).Balanced self.outside (map'.items.map MapItem.data) := by
  subst h
  exact inOrder_iff (mapInsert_spec hv key data).1

theorem insert_new_iff (hv : Valid self.map) (ho : InOrder self) {key : List Char}
    (h : key ∉ self.map.items.map MapItem.key) (data : Nat) :
    InOrder (self.step (.insert key data)) ↔ KeepsOrder self (.insert key data) := by
  obtain ⟨hgrown, hperm⟩ := grow_items hv
  have hkey : key ∉ self.map.grow.items.map MapItem.key := by
    rwa [(hperm.map MapItem.key).mem_iff]
  obtain ⟨map', hinsert, hb⟩ := prvMapInsertItem_new hgrown ⟨key, data⟩ hkey
  have hmap : mapInsert self.map key data = map' := by rw [mapInsert, hinsert]
  have hnone : content self.map key = none := content_eq_none.mpr h
  have hlen : map'.items.length = self.map.items.length + 1 := by
    rw [hb.items.length_eq, List.length_cons, hperm.length_eq]
  have hcounts : (self.counts.take data).Balanced self.outside (map'.items.map MapItem.data) :=
    (ho.counts.take data).perm (((hperm.cons _).map MapItem.data).symm.trans (hb.items.map _).symm)
  have hlt := length_lt hv ho
  rw [inOrder_insert_iff hv hmap, and_iff_left hcounts, hb.n, hlen, grow_n hv ho, KeepsOrder,
    mapGet_eq hv, hnone]
  simp only [Option.getD_none, true_and, true_imp_iff]
  rw [← List.length_eq_zero_iff]
  split_ifs with hg
  · simp only [hg, true_imp_iff]
    omega
  · simp only [hg, Bool.false_eq_true, false_imp_iff, true_and]
    omega

theorem insert_old_iff (hv : Valid self.map) (ho : InOrder self) {old : MapItem}
    (h : old ∈ self.map.items) (data : Nat) :
    InOrder (self.step (.insert old.key data)) ↔ KeepsOrder self (.insert old.key data) := by
  obtain ⟨hgrown, hperm⟩ := grow_items hv
  obtain ⟨map', rest, hinsert, hrest, hb⟩ := prvMapInsertItem_old hgrown ⟨old.key, data⟩
    (hperm.mem_iff.mpr h) rfl
  have hmap : mapInsert self.map old.key data = map' := by rw [mapInsert, hinsert]
  have hsome : content self.map old.key = some old.data := (content_eq_some hv).mpr h
  have hbefore : self.held.Perm (old.data :: rest.map MapItem.data) :=
    (hperm.symm.trans hrest).map MapItem.data
  have hlen : map'.items.length = self.map.items.length := by
    rw [hb.items.length_eq, ← hperm.length_eq, hrest.length_eq, List.length_cons]
    rfl
  have hcounts : (self.counts.take data).Balanced self.outside (map'.items.map MapItem.data) ↔
      old.data = 0 := by
    have hextra := ((ho.counts.perm hbefore).take data).perm (List.Perm.swap _ _ _)
    have hafter := hb.items.map MapItem.data
    rw [← hextra.cons_iff]
    exact ⟨fun hc => hc.perm hafter, fun hc => hc.perm hafter.symm⟩
  have hpos : 0 < self.map.items.length := List.length_pos_of_mem h
  have hlt := length_lt hv ho
  rw [inOrder_insert_iff hv hmap, hcounts, hb.n, hlen, grow_n hv ho, KeepsOrder, mapGet_eq hv, hsome]
  simp only [Option.getD_some, reduceCtorEq, false_imp_iff, and_true]
  rw [← List.length_eq_zero_iff]
  split_ifs with hg
  · simp only [hg, true_imp_iff]
    omega
  · simp only [hg, Bool.false_eq_true, false_imp_iff, true_and]

theorem remove_iff (hv : Valid self.map) (ho : InOrder self) (key : List Char) :
    InOrder (self.step (.remove key)) ↔ KeepsOrder self (.remove key) := by
  by_cases h : key ∈ self.map.items.map MapItem.key
  · obtain ⟨item, hm, rfl⟩ := List.mem_map.mp h
    obtain ⟨map', rest, hremove, hrest, hb⟩ := mapRemove_old hv hm
    refine iff_of_false (fun hafter => ?_) fun hnone => content_eq_none.mp hnone h
    have hn := hafter.n
    have hmap : (self.step (.remove item.key)).map = map' := congrArg Prod.fst hremove
    have hlen := hrest.length_eq
    rw [hmap, hb.n, hb.items.length_eq, ho.n, hlen, List.length_cons] at hn
    omega
  · have hnone : content self.map key = none := content_eq_none.mpr h
    refine iff_of_true ?_ hnone
    have hremove := mapRemove_new hv h
    have hstep : self.step (.remove key) =
        { self with outside := Function.update self.outside 0 (self.outside 0 + 1) } := by
      simp only [step, hremove]
    rw [hstep]
    exact ⟨ho.n, ho.room, ho.counts.update_zero _⟩

theorem step_valid (hv : Valid self.map) (op : MapUse) : Valid (self.step op).map := by
  cases op with
  | insert key data => exact (mapInsert_spec hv key data).1
  | remove key => exact (mapRemove_spec hv key).1
  | hold x => exact hv
  | drop x =>
    rw [step]
    split_ifs
    · exact hv
    · exact hv

/-- A step from a state in order leads to one just if the condition is met. -/
theorem step_inOrder_iff (hv : Valid self.map) (ho : InOrder self) (op : MapUse) :
    InOrder (self.step op) ↔ KeepsOrder self op := by
  cases op with
  | insert key data =>
    by_cases h : key ∈ self.map.items.map MapItem.key
    · obtain ⟨old, hold, rfl⟩ := List.mem_map.mp h
      exact insert_old_iff hv ho hold data
    · exact insert_new_iff hv ho h data
  | remove key => exact remove_iff hv ho key
  | hold x => exact iff_of_true ⟨ho.n, ho.room, (ho.counts.take x).pass⟩ trivial
  | drop x =>
    refine iff_of_true ?_ trivial
    rw [step]
    split_ifs with hx
    · exact ho
    · have hreceive := ho.counts.receive hx
      rw [hreceive.releaseUnsigned_eq]
      exact ⟨ho.n, ho.room, hreceive.release⟩

theorem inOrder_start (size : Nat) (threshold outside : Nat → Nat) :
    InOrder (start size threshold outside) := by
  have hnone : (mapNew size threshold).items = [] := by simp [items, mapNew, Chains.empty]
  apply inOrder_of
  · rw [start, hnone]
    rfl
  · rw [start, hnone]
    exact Nat.two_pow_pos 32
  · intro x _
    simp [start, held, hnone]

/-- A run on a new map is in order all along exactly when every step of it only grows
an empty map, overwrites only NULL, has a number of items that fits, and removes nothing. -/
theorem map_inOrder_iff {size : Nat} (hs : 0 < size) (threshold outside : Nat → Nat)
    (ops : List MapUse) :
    Always (fun s i => some (step s i)) InOrder (start size threshold outside) ops ↔
      AllOk (fun s i => some (step s i)) KeepsOrder (start size threshold outside) ops := by
  have hstep : ∀ s i, Valid s.map → InOrder s →
      ∃ t, some (step s i) = some t ∧ Valid t.map ∧ (InOrder t ↔ KeepsOrder s i) :=
    fun s i hv ho => ⟨step s i, rfl, step_valid hv i, step_inOrder_iff hv ho i⟩
  exact always_iff_allOk hstep (valid_new hs threshold) (inOrder_start size threshold outside) ops

/-- The threshold 0.8. -/
def fourFifths : Nat → Nat := Binary64.mulTrunc 7205759403792794

theorem map_inOrder_of_new : Always (fun s i => some (step s i)) InOrder
    (start 32 fourFifths fun _ => 1) [.insert "a".toList 1, .insert "b".toList 2] :=
  (map_inOrder_iff (by decide) fourFifths (fun _ => 1) [.insert "a".toList 1, .insert "b".toList 2]).mpr
    (by decide +kernel)

/-- A key that is inserted and removed stays counted. -/
theorem removed_counted : ¬ ∀ (size : Nat) (threshold outside : Nat → Nat) (ops : List MapUse),
    0 < size → InOrder (ops.foldl step (start size threshold outside)) := by
  intro hall
  have hn := (hall 32 fourFifths (fun _ => 1) [.insert "a".toList 1, .remove "a".toList] (by decide)).n
  exact absurd hn (by decide +kernel)

end CountedMap

end AutoGentoo
