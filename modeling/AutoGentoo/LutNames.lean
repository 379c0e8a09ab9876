import AutoGentoo.RequiredUse
import Mathlib.Data.List.Induction

/-! Interning with any number of collisions. The place of a name among those of
its hash goes into the id in 16 bits, and an id leads to the first name that has
it. -/

section

variable {α : Type*} [BEq α] [LawfulBEq α]

theorem List.eraseDups_concat_of_mem {l : List α} {a : α} (h : a ∈ l) :
    (l ++ [a]).eraseDups = l.eraseDups := by
  simp [List.eraseDups_append, List.removeAll, h]

theorem List.eraseDups_concat_of_notMem {l : List α} {a : α} (h : a ∉ l) :
    (l ++ [a]).eraseDups = l.eraseDups ++ [a] := by
  simp [List.eraseDups_append, List.removeAll, h, List.eraseDups_cons]

theorem List.nodup_eraseDups (l : List α) : l.eraseDups.Nodup := by
  induction l using List.reverseRecOn with
  | nil => simp
  | append_singleton l a ih =>
    by_cases h : a ∈ l
    · rwa [List.eraseDups_concat_of_mem h]
    · rw [List.eraseDups_concat_of_notMem h]
      refine List.nodup_append.mpr ⟨ih, List.nodup_singleton a, fun b hb c hc he => h ?_⟩
      rw [← List.mem_singleton.mp hc, ← he]
      exact List.mem_eraseDups.mp hb

end

namespace AutoGentoo

namespace Lut

/-- The names of hash `h`, in the order of their first occurrence. -/
def classOf (names : List (List Char)) (h : Nat) : List (List Char) :=
  (names.filter (mapGetHash · = h)).eraseDups

def placeOf (names : List (List Char)) (name : List Char) : Nat :=
  (classOf names (mapGetHash name)).idxOf name

def idOf (names : List (List Char)) (name : List Char) : Nat :=
  lutId (mapGetHash name) (placeOf names name % 2 ^ 16)

/-- The first name under the id of a name. -/
def nameUnder (names : List (List Char)) (name : List Char) : Option (List Char) :=
  (classOf names (mapGetHash name))[placeOf names name % 2 ^ 16]?

section Names

variable {names : List (List Char)} {name : List Char} {h : Nat}

theorem mem_classOf : name ∈ classOf names h ↔ name ∈ names ∧ mapGetHash name = h := by
  simp [classOf, List.mem_eraseDups]

theorem classOf_concat : classOf (names ++ [name]) h =
    if mapGetHash name = h ∧ name ∉ names then classOf names h ++ [name] else classOf names h := by
  unfold classOf
  by_cases hh : mapGetHash name = h
  · have hf : (names ++ [name]).filter (mapGetHash · = h) =
        names.filter (mapGetHash · = h) ++ [name] := by simp [hh]
    rw [hf]
    by_cases hm : name ∈ names
    · rw [List.eraseDups_concat_of_mem (by simp [hm, hh]), if_neg (fun hn => hn.2 hm)]
    · rw [List.eraseDups_concat_of_notMem (by simp [hm]), if_pos ⟨hh, hm⟩]
  · simp [hh]

theorem classOf_prefix (names more : List (List Char)) (h : Nat) :
    classOf names h <+: classOf (names ++ more) h := by
  unfold classOf
  rw [List.filter_append, List.eraseDups_append]
  exact List.prefix_append _ _

theorem nodup_classOf (names : List (List Char)) (h : Nat) : (classOf names h).Nodup :=
  List.nodup_eraseDups _

theorem placeOf_lt (hm : name ∈ names) :
    placeOf names name < (classOf names (mapGetHash name)).length :=
  List.idxOf_lt_length_of_mem (mem_classOf.mpr ⟨hm, rfl⟩)

theorem placeOf_append (hm : name ∈ names) (more : List (List Char)) :
    placeOf (names ++ more) name = placeOf names name := by
  obtain ⟨tail, ht⟩ := classOf_prefix names more (mapGetHash name)
  rw [placeOf, ← ht]
  exact List.idxOf_append_of_mem (mem_classOf.mpr ⟨hm, rfl⟩)

theorem idOf_append (hm : name ∈ names) (more : List (List Char)) :
    idOf (names ++ more) name = idOf names name := by
  rw [idOf, idOf, placeOf_append hm]

theorem classOf_placeOf (hm : name ∈ names) :
    (classOf names (mapGetHash name))[placeOf names name]? = some name := by
  rw [List.getElem?_eq_getElem (placeOf_lt hm)]
  exact congrArg some (List.getElem_idxOf _)

/-- A name is read back while it is among the first `2 ^ 16` of its hash. -/
theorem nameUnder_self_iff (hm : name ∈ names) :
    nameUnder names name = some name ↔ placeOf names name < 2 ^ 16 := by
  have hlt := placeOf_lt hm
  have hmod : placeOf names name % 2 ^ 16 < (classOf names (mapGetHash name)).length :=
    (Nat.mod_le _ _).trans_lt hlt
  constructor
  · intro he
    rw [nameUnder, ← classOf_placeOf hm, List.getElem?_eq_getElem hmod,
      List.getElem?_eq_getElem hlt, Option.some.injEq] at he
    have hidx := (nodup_classOf _ _).getElem_inj_iff.mp he
    rw [← hidx]
    exact Nat.mod_lt _ (by decide)
  · intro hfew
    rw [nameUnder, Nat.mod_eq_of_lt hfew, classOf_placeOf hm]

theorem placeOf_of_few (hm : name ∈ names) (hfew : FewCollisions names) :
    placeOf names name < 2 ^ 16 := by
  refine (placeOf_lt hm).trans_le (le_trans ?_ (hfew (mapGetHash name)).le)
  refine (List.Nodup.subperm (nodup_classOf names _) fun x hx => ?_).length_le
  obtain ⟨hx, hh⟩ := mem_classOf.mp hx
  simp [hx, hh]

end Names

/-- The table after the names have been interned, in this order. -/
structure Interned (lut : Lut) (names : List (List Char)) : Prop where
  shaped : Shaped lut
  keys : ∀ h, (lut.nodesOf h).map LutNode.key = classOf names h
  ids : ∀ h, (lut.nodesOf h).map LutNode.id =
    (List.range (lut.nodesOf h).length).map fun i => lutId h (i % 2 ^ 16)

namespace Interned

variable {lut : Lut} {names : List (List Char)} {name : List Char}

theorem init {size : Nat} (hs : 0 < size) : Interned (lutNew size) [] := by
  have hnodes : ∀ h, (lutNew size).nodesOf h = [] := Chains.ofHash_empty size
  exact ⟨(lutNew_valid hs).shaped, fun h => by rw [hnodes]; rfl, fun h => by rw [hnodes]; rfl⟩

theorem length_nodes (hi : Interned lut names) (h : Nat) :
    (lut.nodesOf h).length = (classOf names h).length := by
  rw [← hi.keys h, List.length_map]

theorem key_at (hi : Interned lut names) {h i : Nat} (hlt : i < (lut.nodesOf h).length) :
    (classOf names h)[i]? = some (lut.nodesOf h)[i].key := by
  rw [← hi.keys h, List.getElem?_map, List.getElem?_eq_getElem hlt]
  rfl

theorem id_at (hi : Interned lut names) {h i : Nat} (hlt : i < (lut.nodesOf h).length) :
    (lut.nodesOf h)[i].id = lutId h (i % 2 ^ 16) := by
  have hids := congrArg (·[i]?) (hi.ids h)
  simpa [List.getElem?_eq_getElem hlt, hlt] using hids

theorem getId_mem (hi : Interned lut names) (hm : name ∈ names) :
    lutGetId lut name = (idOf names name, lutFlagExists) := by
  have hlt : placeOf names name < (lut.nodesOf (mapGetHash name)).length := by
    rw [hi.length_nodes]
    exact placeOf_lt hm
  have hkey : (lut.nodesOf (mapGetHash name))[placeOf names name].key = name :=
    (Option.some.inj ((classOf_placeOf hm).symm.trans (hi.key_at hlt))).symm
  obtain ⟨hb, hh⟩ := List.mem_filter.mp (List.getElem_mem hlt)
  have hfound := idLoop_found hb (of_decide_eq_true hh) hkey (fun x hx hhx hk => ?_) 0
  · rw [hi.id_at hlt] at hfound
    exact hfound
  · have hnodup : ((lut.nodesOf (mapGetHash name)).map LutNode.key).Nodup := by
      rw [hi.keys]
      exact nodup_classOf names _
    have hmem : x ∈ lut.nodesOf (mapGetHash name) :=
      List.mem_filter.mpr ⟨hx, by simpa using hhx⟩
    rw [List.inj_on_of_nodup_map hnodup hmem (List.getElem_mem hlt) (hk.trans hkey.symm)]

theorem getId_new (hi : Interned lut names) (hm : name ∉ names) :
    lutGetId lut name = (idOf (names ++ [name]) name, lutFlagNotFound) := by
  have habs : ∀ node ∈ lut.nodesOf (mapGetHash name), node.key ≠ name := by
    intro node hnode hk
    have hmem : name ∈ (lut.nodesOf (mapGetHash name)).map LutNode.key :=
      List.mem_map.mpr ⟨node, hnode, hk⟩
    rw [hi.keys] at hmem
    exact hm (mem_classOf.mp hmem).1
  have hnot : name ∉ classOf names (mapGetHash name) := fun hc => hm (mem_classOf.mp hc).1
  rw [lutGetId_absent habs, hi.length_nodes, idOf, placeOf, classOf_concat, if_pos ⟨rfl, hm⟩,
    List.idxOf_append_of_notMem hnot]
  simp

/-- Among the nodes with one id the search finds the first. -/
theorem getKey (hi : Interned lut names) (hm : name ∈ names) :
    lutGetKey lut (idOf names name) = nameUnder names name := by
  have hplace : placeOf names name % 2 ^ 16 < 2 ^ 16 := Nat.mod_lt _ (by decide)
  have hlt : placeOf names name % 2 ^ 16 < (lut.nodesOf (mapGetHash name)).length := by
    rw [hi.length_nodes]
    exact (Nat.mod_le _ _).trans_lt (placeOf_lt hm)
  have hhash : lutIdGetHash (idOf names name) = mapGetHash name :=
    lutIdGetHash_lutId (mapGetHash_lt name) hplace
  have hclass : findId lut (idOf names name) =
      (lut.nodesOf (mapGetHash name)).find? (·.id = idOf names name) := by
    rw [findId, hhash, nodesOf, Chains.ofHash, List.find?_filter]
    congr 1
    funext node
    by_cases hid : node.id = idOf names name
    · simp [LutNode.hash, hid, hhash]
    · simp [hid]
  have hfirst : (lut.nodesOf (mapGetHash name)).find? (·.id = idOf names name) =
      some (lut.nodesOf (mapGetHash name))[placeOf names name % 2 ^ 16] := by
    refine List.find?_eq_some_iff_getElem.mpr ⟨?_, _, hlt, rfl, fun j hj => ?_⟩
    · rw [decide_eq_true_eq, hi.id_at hlt, idOf, Nat.mod_mod]
    · have hjlt : j < 2 ^ 16 := hj.trans hplace
      rw [hi.id_at (hj.trans hlt), Nat.mod_eq_of_lt hjlt]
      simp only [Bool.not_eq_true', decide_eq_false_iff_not]
      exact fun he => hj.ne (lutId_inj (mapGetHash_lt name) hjlt hplace he)
  rw [lutGetKey, hclass, hfirst, nameUnder, hi.key_at hlt, Option.map_some]

theorem withNode (hi : Interned lut names) (hm : name ∉ names)
    (hroom : min (lut.count + 2) (2 ^ 32) ≤ lut.reallocAt) (data flags : Nat) :
    Interned (lut.withNode
      { id := idOf (names ++ [name]) name, key := name, data := data, flags := flags })
      (names ++ [name]) := by
  have hnot : name ∉ classOf names (mapGetHash name) := fun hc => hm (mem_classOf.mp hc).1
  have hid : idOf (names ++ [name]) name =
      lutId (mapGetHash name) ((classOf names (mapGetHash name)).length % 2 ^ 16) := by
    rw [idOf, placeOf, classOf_concat, if_pos ⟨rfl, hm⟩, List.idxOf_append_of_notMem hnot]
    simp
  have hhash : LutNode.hash
      { id := idOf (names ++ [name]) name, key := name, data := data, flags := flags } =
        mapGetHash name := by
    rw [LutNode.hash, hid, lutIdGetHash_lutId (mapGetHash_lt name) (Nat.mod_lt _ (by decide))]
  refine ⟨withNode_shaped hi.shaped hroom, fun h => ?_, fun h => ?_⟩
  · rw [withNode_nodes_hash hi.shaped.table_ne_nil, hhash, classOf_concat]
    by_cases he : mapGetHash name = h
    · rw [if_pos he, if_pos ⟨he, hm⟩, List.map_append, hi.keys, List.map_singleton]
    · rw [if_neg he, if_neg (fun hn => he hn.1), hi.keys]
  · rw [withNode_nodes_hash hi.shaped.table_ne_nil, hhash]
    by_cases he : mapGetHash name = h
    · rw [if_pos he, List.map_append, hi.ids, List.length_append, List.length_singleton,
        List.range_succ, List.map_append, List.map_singleton, List.map_singleton, hid,
        ← hi.length_nodes, he]
    · rw [if_neg he, hi.ids]

theorem regrown {lut' : Lut} (hi : Interned lut names) (hg : Regrown lut lut') :
    Interned lut' names :=
  ⟨hg.shaped, fun h => by rw [hg.nodes, hi.keys], fun h => by rw [hg.nodes, hi.ids]⟩

theorem again (hi : Interned lut names) (hm : name ∈ names) : Interned lut (names ++ [name]) :=
  ⟨hi.shaped, fun h => by rw [hi.keys, classOf_concat, if_neg (fun hn => hn.2 hm)], hi.ids⟩

end Interned

end Lut

namespace UseHeap

variable {heap : UseHeap} {names : List (List Char)} {name : List Char}

theorem useGetGlobal_again (hi : Lut.Interned heap.globalFlags names) (hm : name ∈ names) :
    heap.useGetGlobal (some name) = some (heap, Lut.idOf (names ++ [name]) name) := by
  rw [useGetGlobal, hi.getId_mem hm, Lut.idOf_append hm]
  exact if_neg (show ¬ lutFlagExists &&& lutFlagNotFound ≠ 0 by decide)

/-- A new name gets an object and a node for it, the table having grown where it was full. -/
theorem useGetGlobal_new (hi : Lut.Interned heap.globalFlags names) (hm : name ∉ names) :
    ∃ lut, Lut.Regrown heap.globalFlags lut ∧ heap.useGetGlobal (some name) =
      some ({ heap with
        globalFlags := lut.withNode
          { id := Lut.idOf (names ++ [name]) name, key := name, data := heap.flags.length + 1
            flags := lutFlagNotFound ||| lutFlagPython }
        flags := heap.flags ++ [{ name := name, state := false }] },
        Lut.idOf (names ++ [name]) name) := by
  obtain ⟨lut, hgrow, hg⟩ := Lut.regrow_spec hi.shaped
  have hnode : ∀ node : LutNode, node.flags = lutFlagNotFound ||| lutFlagPython →
      Lut.insertNode lut node = some (lut.withNode node) :=
    fun node hf => if_pos (by rw [hf]; decide)
  refine ⟨lut, hg, ?_⟩
  simp only [useGetGlobal, hi.getId_new hm, Lut.lutInsertId, hgrow]
  rw [if_pos (by decide)]
  simp only [Option.bind_eq_bind, Option.bind_some]
  rw [hnode _ rfl]
  rfl

/-- Interning a name never fails. -/
theorem useGetGlobal_interned (hi : Lut.Interned heap.globalFlags names) (name : List Char) :
    ∃ heap', heap.useGetGlobal (some name) = some (heap', Lut.idOf (names ++ [name]) name) ∧
      Lut.Interned heap'.globalFlags (names ++ [name]) := by
  by_cases hm : name ∈ names
  · exact ⟨heap, useGetGlobal_again hi hm, hi.again hm⟩
  · obtain ⟨lut, hg, hget⟩ := useGetGlobal_new hi hm
    exact ⟨_, hget, (hi.regrown hg).withNode hm hg.room _ _⟩

end UseHeap

end AutoGentoo
