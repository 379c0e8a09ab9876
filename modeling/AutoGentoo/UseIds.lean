import AutoGentoo.DependRead
import AutoGentoo.Regenerate

/-! The ids of `use_get_global`: they tell names apart and lead to the objects, and a
name whose hash is 0 may get 0, which stands for no condition. -/

namespace AutoGentoo

open Lut

namespace UseHeap

/-- `Portage.get_use_flag` -/
def getUseFlag (self : UseHeap) (id : Nat) : Option UseFlag :=
  match lutGet self.globalFlags id with
  | 0 => none
  | address + 1 => self.flags[address]?

theorem getUseFlag_globals (self : Emerge) (id : Nat) :
    self.getUseFlag id = self.globals.getUseFlag id := rfl

/-- One call after the other, with the ids they return. -/
def useGetGlobals (self : UseHeap) : List (List Char) → Option (UseHeap × List Nat)
  | [] => some (self, [])
  | name :: names =>
    (self.useGetGlobal (some name)).bind fun r =>
      (useGetGlobals r.1 names).map fun rest => (rest.1, r.2 :: rest.2)

/-- The node of a name holds the address of an object with this name. -/
def Pointed (self : UseHeap) : Prop :=
  ∀ h, ∀ node ∈ self.globalFlags.nodesOf h,
    ∃ address, node.data = address + 1 ∧ self.flags[address]?.map UseFlag.name = some node.key

variable {heap : UseHeap} {names : List (List Char)} {name : List Char}

theorem init_pointed : init.Pointed := by
  intro h node hnode
  have hnil : init.globalFlags.nodesOf h = [] := Chains.ofHash_empty 256 h
  rw [hnil] at hnode
  exact absurd hnode List.not_mem_nil

theorem Pointed.useGetGlobal (hp : heap.Pointed) (hi : Interned heap.globalFlags names)
    {heap' : UseHeap} {id : Nat} (hget : heap.useGetGlobal (some name) = some (heap', id)) :
    heap'.Pointed := by
  by_cases hm : name ∈ names
  · have hsame := hget.symm.trans (useGetGlobal_again hi hm)
    rwa [(Prod.mk.inj (Option.some.inj hsame)).1]
  · obtain ⟨lut, hg, hnew⟩ := useGetGlobal_new hi hm
    have hheap := (Prod.mk.inj (Option.some.inj (hget.symm.trans hnew))).1
    rw [hheap]
    intro h node hnode
    have hold : ∀ node ∈ heap.globalFlags.nodesOf h, ∃ address, node.data = address + 1 ∧
        (heap.flags ++ [{ name := name, state := false }])[address]?.map UseFlag.name =
          some node.key := by
      intro node hnode
      obtain ⟨address, hdata, hflag⟩ := hp h node hnode
      have hlt : address < heap.flags.length := by
        by_contra hge
        rw [List.getElem?_eq_none (by omega)] at hflag
        exact absurd hflag (by simp)
      exact ⟨address, hdata, by rw [List.getElem?_append_left hlt, hflag]⟩
    rw [withNode_nodes_hash hg.shaped.table_ne_nil, hg.nodes] at hnode
    split_ifs at hnode with hh
    · rcases List.mem_append.mp hnode with hnode | hnode
      · exact hold node hnode
      · rw [List.mem_singleton.mp hnode]
        exact ⟨heap.flags.length, rfl, by simp⟩
    · exact hold node hnode

theorem useGetGlobals_interned (more : List (List Char)) (hi : Interned heap.globalFlags names)
    (hp : heap.Pointed) :
    ∃ heap', heap.useGetGlobals more = some (heap', more.map (idOf (names ++ more))) ∧
      Interned heap'.globalFlags (names ++ more) ∧ heap'.Pointed := by
  induction more generalizing heap names with
  | nil => exact ⟨heap, rfl, by rwa [List.append_nil], hp⟩
  | cons name more ih =>
    obtain ⟨mid, hget, hmid⟩ := useGetGlobal_interned hi name
    obtain ⟨heap', hrun, hi', hp'⟩ := ih hmid (hp.useGetGlobal hi hget)
    have hid : idOf (names ++ [name]) name = idOf (names ++ name :: more) name := by
      have hmem : name ∈ names ++ [name] := List.mem_append_right _ (List.mem_singleton_self name)
      rw [← idOf_append hmem more, List.append_assoc, List.singleton_append]
    rw [List.append_assoc, List.singleton_append] at hrun hi'
    refine ⟨heap', ?_, hi', hp'⟩
    rw [useGetGlobals, hget, Option.bind_some, hrun, Option.map_some, List.map_cons, hid]

theorem Pointed.getUseFlag (hp : heap.Pointed) (hi : Interned heap.globalFlags names)
    (hm : name ∈ names) :
    (heap.getUseFlag (idOf names name)).map UseFlag.name = nameUnder names name := by
  have hkey := hi.getKey hm
  rw [lutGetKey] at hkey
  cases hfind : findId heap.globalFlags (idOf names name) with
  | none =>
    have hnone : lutGet heap.globalFlags (idOf names name) = 0 := by rw [lutGet, hfind]; rfl
    rw [hfind, Option.map_none] at hkey
    rw [UseHeap.getUseFlag, hnone, ← hkey]
    rfl
  | some node =>
    rw [hfind, Option.map_some] at hkey
    have hid : node.id = idOf names name := by simpa using List.find?_some hfind
    have hnode : node ∈ heap.globalFlags.nodesOf (lutIdGetHash (idOf names name)) := by
      apply List.mem_filter.mpr
      refine ⟨List.mem_of_find?_eq_some hfind, ?_⟩
      simp [LutNode.hash, hid]
    obtain ⟨address, hdata, hflag⟩ := hp _ node hnode
    have hget : lutGet heap.globalFlags (idOf names name) = address + 1 := by
      rw [lutGet, hfind, Option.map_some, Option.getD_some, hdata]
    rw [UseHeap.getUseFlag, hget, ← hkey]
    exact hflag

end UseHeap

namespace Lut

variable {names : List (List Char)} {name other : List Char}

/-- Names of the first `2 ^ 16` of their hash are told apart by their ids. -/
theorem idOf_inj (hm : name ∈ names) (ho : other ∈ names) (hplace : placeOf names name < 2 ^ 16)
    (hplace' : placeOf names other < 2 ^ 16) (he : idOf names name = idOf names other) :
    name = other := by
  rw [idOf, idOf, Nat.mod_eq_of_lt hplace, Nat.mod_eq_of_lt hplace'] at he
  have hhash : mapGetHash name = mapGetHash other := by
    have hsame := congrArg lutIdGetHash he
    rwa [lutIdGetHash_lutId (mapGetHash_lt name) hplace,
      lutIdGetHash_lutId (mapGetHash_lt other) hplace'] at hsame
  rw [hhash] at he
  have hsame : placeOf names name = placeOf names other :=
    lutId_inj (mapGetHash_lt other) hplace hplace' he
  have hname := classOf_placeOf hm
  rw [hhash, hsame, classOf_placeOf ho] at hname
  exact (Option.some.inj hname).symm

/-- The first name of hash 0 has the id 0. -/
theorem zero_notMem_ids_iff : 0 ∉ names.map (idOf names) ↔ ∀ name ∈ names, mapGetHash name ≠ 0 := by
  constructor
  · intro hids name hm hhash
    apply hids
    have hclass : name ∈ classOf names 0 := mem_classOf.mpr ⟨hm, hhash⟩
    cases hc : classOf names 0 with
    | nil =>
      rw [hc] at hclass
      exact absurd hclass List.not_mem_nil
    | cons first rest =>
      obtain ⟨hfirst, hzero⟩ := mem_classOf.mp (hc ▸ List.mem_cons_self : first ∈ classOf names 0)
      have hplace : placeOf names first = 0 := by
        rw [placeOf, hzero, hc, List.idxOf_cons_self]
      have hid : idOf names first = 0 := by
        rw [idOf, hzero, hplace]
        rfl
      exact List.mem_map.mpr ⟨first, hfirst, hid⟩
  · intro hhash hids
    obtain ⟨name, hm, hid⟩ := List.mem_map.mp hids
    have hof := lutIdGetHash_lutId (mapGetHash_lt name) (Nat.mod_lt (placeOf names name) (by decide))
    rw [← idOf, hid] at hof
    exact hhash name hm hof.symm

end Lut

/-- The ids of a run are as good as the names, and none is the one of no condition. -/
def IdsFaithful (names : List (List Char)) : Prop :=
  ∃ heap ids, UseHeap.init.useGetGlobals names = some (heap, ids) ∧
    (∀ i j : Nat, ids[i]? = ids[j]? ↔ names[i]? = names[j]?) ∧
    (∀ i : Nat, (ids[i]?.bind fun id => (heap.getUseFlag id).map UseFlag.name) = names[i]?) ∧
    0 ∉ ids

theorem IdsFaithful.hash_ne_zero {names : List (List Char)} (h : IdsFaithful names) :
    ∀ name ∈ names, mapGetHash name ≠ 0 := by
  obtain ⟨heap, ids, hrun, -, -, hids⟩ := h
  obtain ⟨heap', hrun', -, -⟩ :=
    UseHeap.useGetGlobals_interned names UseHeap.init_interned UseHeap.init_pointed
  have hsame := (Prod.mk.inj (Option.some.inj (hrun.symm.trans hrun'))).2
  rw [hsame] at hids
  exact zero_notMem_ids_iff.mp hids

/-- What can go wrong is a hash of 0. -/
theorem idsFaithful_iff {names : List (List Char)} (hfew : FewCollisions names) :
    IdsFaithful names ↔ ∀ name ∈ names, mapGetHash name ≠ 0 := by
  obtain ⟨heap, hrun, hi, hp⟩ :=
    UseHeap.useGetGlobals_interned names UseHeap.init_interned UseHeap.init_pointed
  rw [List.nil_append] at hrun hi
  constructor
  · exact IdsFaithful.hash_ne_zero
  · intro hhash
    refine ⟨heap, _, hrun, fun i j => ?_, fun i => ?_, zero_notMem_ids_iff.mpr hhash⟩
    · rw [List.getElem?_map, List.getElem?_map]
      constructor
      · intro he
        cases hni : names[i]? with
        | none =>
          rw [hni, Option.map_none] at he
          exact (Option.map_eq_none_iff.mp he.symm).symm
        | some name =>
          rw [hni, Option.map_some] at he
          obtain ⟨other, hother, hid⟩ := Option.map_eq_some_iff.mp he.symm
          have hm := List.mem_of_getElem? hni
          have ho := List.mem_of_getElem? hother
          rw [hother, idOf_inj hm ho (placeOf_of_few hm hfew) (placeOf_of_few ho hfew) hid.symm]
      · intro he
        rw [he]
    · rw [List.getElem?_map]
      cases hni : names[i]? with
      | none => rfl
      | some name =>
        have hm := List.mem_of_getElem? hni
        rw [Option.map_some, Option.bind_some, hp.getUseFlag hi hm,
          (nameUnder_self_iff hm).mpr (placeOf_of_few hm hfew)]

theorem idsFaithful_uses : IdsFaithful ["qt5".toList, "gtk".toList, "qt5".toList] := by
  have hfew : FewCollisions ["qt5".toList, "gtk".toList, "qt5".toList] := .of_length (by decide)
  exact (idsFaithful_iff hfew).mpr (by decide)

theorem zeroFlag_name : "wnjsiqwo".toList ≠ [] ∧
    ∀ c ∈ "wnjsiqwo".toList, (c.isAlphanum || c == '_' || c == '-') = true :=
  ⟨by decide, List.all_eq_true.mp (by decide)⟩

def zeroFlag : SelectName := ⟨"wnjsiqwo".toList, zeroFlag_name⟩

/-- The id of this flag is 0. -/
theorem zeroFlag_not_faithful : ¬ IdsFaithful [zeroFlag.val] := fun h =>
  h.hash_ne_zero zeroFlag.val List.mem_cons_self (by decide)

end AutoGentoo
