import AutoGentoo.Lut
import Mathlib.Data.List.Nodup
import Mathlib.Data.Nat.Bitwise
import Mathlib.Logic.Function.Basic

/-! What every operation of the lookup table preserves, and what the searches
find in a table that has it. -/

namespace AutoGentoo

theorem lutIdGetHash_eq (id : Nat) : lutIdGetHash id = id % 2 ^ 32 :=
  Nat.and_two_pow_sub_one_eq_mod id 32

theorem lutIdGetHash_lt (id : Nat) : lutIdGetHash id < 2 ^ 32 := by
  rw [lutIdGetHash_eq]
  exact Nat.mod_lt _ (by decide)

theorem lutId_eq {h i : Nat} (hh : h < 2 ^ 32) (hi : i < 2 ^ 16) : lutId h i = i * 2 ^ 32 + h := by
  have h1 : h &&& lutHashMask = h := by
    rw [show lutHashMask = 2 ^ 32 - 1 from rfl, Nat.and_two_pow_sub_one_eq_mod,
      Nat.mod_eq_of_lt hh]
  have h2 : (i <<< 32) &&& lutOverlapMask = i <<< 32 := by
    rw [show lutOverlapMask = (2 ^ 16 - 1) <<< 32 from rfl, ← Nat.shiftLeft_and_distrib,
      Nat.and_two_pow_sub_one_eq_mod, Nat.mod_eq_of_lt hi]
  rw [lutId, h1, h2, Nat.or_comm, ← Nat.shiftLeft_add_eq_or_of_lt hh, Nat.shiftLeft_eq]

theorem lutIdGetHash_lutId {h i : Nat} (hh : h < 2 ^ 32) (hi : i < 2 ^ 16) :
    lutIdGetHash (lutId h i) = h := by
  rw [lutIdGetHash_eq, lutId_eq hh hi]
  omega

theorem lutId_inj {h i j : Nat} (hh : h < 2 ^ 32) (hi : i < 2 ^ 16) (hj : j < 2 ^ 16)
    (he : lutId h i = lutId h j) : i = j := by
  rw [lutId_eq hh hi, lutId_eq hh hj] at he
  omega

/-- Growth leaves room for more than one further node. -/
theorem lutThreshold_bounds (size : Nat) :
    lutThreshold size ≤ size ∧ 2 * size < 3 * lutThreshold size + 3 := by
  have h1 := Binary64.round_bounds size
  have h2 := Binary64.round_bounds (Binary64.round size * 6305039478318694)
  unfold lutThreshold Binary64.mulTrunc
  omega

namespace Lut

/-- The nodes of a hash, in the order of their insertion. -/
def nodesOf (self : Lut) (h : Nat) : List LutNode := Chains.ofHash LutNode.hash self.table h

def count (self : Lut) : Nat := self.table.flatten.length

/-- The finite map the table stands for: the id and the data of a key. -/
def content (self : Lut) (key : List Char) : Option (Nat × Nat) :=
  ((self.nodesOf (mapGetHash key)).find? (·.key = key)).map fun node => (node.id, node.data)

structure Valid (lut : Lut) : Prop where
  size_pos : 0 < lut.size
  table_size : lut.table.length = lut.size
  realloc_at : lut.reallocAt = lutThreshold lut.size
  placed : Chains.Placed LutNode.hash lut.table
  count_eq : lut.n = lut.count % 2 ^ 32
  room : lut.count = 0 ∨ min (lut.count + 1) (2 ^ 32) ≤ lut.reallocAt
  few : ∀ h, (lut.nodesOf h).length ≤ 2 ^ 16
  ids : ∀ h, (lut.nodesOf h).map LutNode.id =
    (List.range (lut.nodesOf h).length).map (lutId h)
  hashes : ∀ h, ∀ node ∈ lut.nodesOf h, mapGetHash node.key = h
  keys : ∀ h, ((lut.nodesOf h).map LutNode.key).Nodup

/-- The part of the invariant that no number of collisions breaks. -/
structure Shaped (lut : Lut) : Prop where
  size_pos : 0 < lut.size
  table_size : lut.table.length = lut.size
  realloc_at : lut.reallocAt = lutThreshold lut.size
  placed : Chains.Placed LutNode.hash lut.table
  count_eq : lut.n = lut.count % 2 ^ 32
  room : lut.count = 0 ∨ min (lut.count + 1) (2 ^ 32) ≤ lut.reallocAt

theorem Shaped.table_ne_nil {lut : Lut} (hs : Shaped lut) : lut.table ≠ [] := by
  rw [← List.length_pos_iff, hs.table_size]
  exact hs.size_pos

namespace Valid

variable {lut : Lut}

theorem shaped (hv : Valid lut) : Shaped lut :=
  ⟨hv.size_pos, hv.table_size, hv.realloc_at, hv.placed, hv.count_eq, hv.room⟩

theorem table_ne_nil (hv : Valid lut) : lut.table ≠ [] := hv.shaped.table_ne_nil

theorem hash_lt {h : Nat} {node : LutNode} (hm : node ∈ lut.nodesOf h) : h < 2 ^ 32 := by
  have hh : node.hash = h := by simpa using (List.mem_filter.mp hm).2
  rw [← hh]
  exact lutIdGetHash_lt _

theorem ids_nodup (hv : Valid lut) (h : Nat) : ((lut.nodesOf h).map LutNode.id).Nodup := by
  cases hn : lut.nodesOf h with
  | nil => simp
  | cons node nodes =>
    have hm : node ∈ lut.nodesOf h := by simp [hn]
    have hlt := hash_lt hm
    have hfew := hv.few h
    rw [← hn, hv.ids]
    refine List.Nodup.map_on (fun i hi j hj he => ?_) List.nodup_range
    rw [List.mem_range] at hi hj
    exact lutId_inj hlt (by omega) (by omega) he

theorem eq_of_id (hv : Valid lut) {h : Nat} {a b : LutNode} (ha : a ∈ lut.nodesOf h)
    (hb : b ∈ lut.nodesOf h) (he : a.id = b.id) : a = b :=
  List.inj_on_of_nodup_map (hv.ids_nodup h) ha hb he

theorem eq_of_key (hv : Valid lut) {h : Nat} {a b : LutNode} (ha : a ∈ lut.nodesOf h)
    (hb : b ∈ lut.nodesOf h) (he : a.key = b.key) : a = b :=
  List.inj_on_of_nodup_map (hv.keys h) ha hb he

theorem findId_mem (hv : Valid lut) {h : Nat} {node : LutNode} (hm : node ∈ lut.nodesOf h) :
    findId lut node.id = some node := by
  obtain ⟨hb, hh⟩ := List.mem_filter.mp hm
  have hhash : lutIdGetHash node.id = h := of_decide_eq_true hh
  unfold findId
  rw [hhash]
  cases hf : (Chains.bucket lut.table h).find? (·.id = node.id) with
  | none =>
    have hn := List.find?_eq_none.mp hf node hb
    simp at hn
  | some x =>
    have hid : x.id = node.id := by simpa using List.find?_some hf
    have hx : x ∈ lut.nodesOf h := by
      refine List.mem_filter.mpr ⟨List.mem_of_find?_eq_some hf, ?_⟩
      simp [LutNode.hash, hid, hhash]
    rw [hv.eq_of_id hx hm hid]

theorem findId_none {id : Nat}
    (h : ∀ node ∈ lut.nodesOf (lutIdGetHash id), node.id ≠ id) : findId lut id = none := by
  refine List.find?_eq_none.mpr (fun node hb hid => ?_)
  have hid : node.id = id := by simpa using hid
  refine h node (List.mem_filter.mpr ⟨hb, ?_⟩) hid
  simp [LutNode.hash, hid]

theorem content_mem (hv : Valid lut) {h : Nat} {node : LutNode} (hm : node ∈ lut.nodesOf h) :
    content lut node.key = some (node.id, node.data) := by
  unfold content
  rw [hv.hashes h node hm]
  cases hf : (lut.nodesOf h).find? (·.key = node.key) with
  | none =>
    have hn := List.find?_eq_none.mp hf node hm
    simp at hn
  | some x =>
    have hk : x.key = node.key := by simpa using List.find?_some hf
    rw [hv.eq_of_key (List.mem_of_find?_eq_some hf) hm hk]
    rfl

end Valid

theorem exists_of_content {lut : Lut} {key : List Char} {i d : Nat}
    (h : content lut key = some (i, d)) :
    ∃ node ∈ lut.nodesOf (mapGetHash key), node.key = key ∧ node.id = i ∧ node.data = d := by
  obtain ⟨node, hf, he⟩ := Option.map_eq_some_iff.mp h
  simp only [Prod.mk.injEq] at he
  exact ⟨node, List.mem_of_find?_eq_some hf, by simpa using List.find?_some hf, he.1, he.2⟩

theorem content_eq_none {lut : Lut} {key : List Char} :
    content lut key = none ↔ ∀ node ∈ lut.nodesOf (mapGetHash key), node.key ≠ key := by
  simp [content, List.find?_eq_none]

theorem Valid.content_inj {lut : Lut} (hv : Valid lut) {k k' : List Char} {i d d' : Nat}
    (h : content lut k = some (i, d)) (h' : content lut k' = some (i, d')) : k = k' := by
  obtain ⟨a, ha, rfl, hi, -⟩ := exists_of_content h
  obtain ⟨b, hb, rfl, hi', -⟩ := exists_of_content h'
  have hha : a.hash = mapGetHash a.key := of_decide_eq_true (List.mem_filter.mp ha).2
  have hhb : b.hash = mapGetHash b.key := of_decide_eq_true (List.mem_filter.mp hb).2
  have he : mapGetHash a.key = mapGetHash b.key := by
    rw [← hha, ← hhb, LutNode.hash, LutNode.hash, hi, hi']
  rw [he] at ha
  rw [hv.eq_of_id ha hb (hi.trans hi'.symm)]

theorem idLoop_found {key : List Char} {h : Nat} {b : List LutNode} {node : LutNode}
    (hm : node ∈ b) (hh : node.hash = h) (hk : node.key = key)
    (hu : ∀ x ∈ b, x.hash = h → x.key = key → x.id = node.id) (k : Nat) :
    idLoop key h k b = (node.id, lutFlagExists) := by
  induction b generalizing k with
  | nil => simp at hm
  | cons x b ih =>
    rw [idLoop]
    by_cases hx : x.hash = h
    · rw [if_pos hx]
      by_cases hkx : key = x.key
      · rw [if_pos hkx, hu x (by simp) hx hkx.symm]
      · rw [if_neg hkx]
        refine ih ?_ (fun y hy => hu y (by simp [hy])) _
        rcases List.mem_cons.mp hm with rfl | hm
        · exact absurd hk.symm hkx
        · exact hm
    · rw [if_neg hx]
      refine ih ?_ (fun y hy => hu y (by simp [hy])) _
      rcases List.mem_cons.mp hm with rfl | hm
      · exact absurd hh hx
      · exact hm

theorem idLoop_absent {key : List Char} {h : Nat} {b : List LutNode}
    (hb : ∀ x ∈ b, x.hash = h → x.key ≠ key) {k : Nat} (hk : k < 2 ^ 16) :
    idLoop key h k b = (lutId h ((k + (b.filter (·.hash = h)).length) % 2 ^ 16), lutFlagNotFound) := by
  induction b generalizing k with
  | nil => rw [idLoop, List.filter_nil, List.length_nil, Nat.add_zero, Nat.mod_eq_of_lt hk]
  | cons x b ih =>
    rw [idLoop]
    have hb' : ∀ y ∈ b, y.hash = h → y.key ≠ key := fun y hy => hb y (by simp [hy])
    by_cases hx : x.hash = h
    · have hf : ((x :: b).filter (·.hash = h)).length = (b.filter (·.hash = h)).length + 1 := by
        simp [hx]
      rw [if_pos hx, if_neg (Ne.symm (hb x (by simp) hx)), ih hb' (Nat.mod_lt _ (by decide)), hf]
      congr 2
      omega
    · have hf : (x :: b).filter (·.hash = h) = b.filter (·.hash = h) := by simp [hx]
      rw [hf, if_neg hx, ih hb' hk]

theorem lutGetId_absent {lut : Lut} {key : List Char}
    (h : ∀ node ∈ lut.nodesOf (mapGetHash key), node.key ≠ key) :
    lutGetId lut key =
      (lutId (mapGetHash key) ((lut.nodesOf (mapGetHash key)).length % 2 ^ 16), lutFlagNotFound) := by
  have hid := idLoop_absent (b := Chains.bucket lut.table (mapGetHash key)) (k := 0)
    (fun x hx hh => h x (List.mem_filter.mpr ⟨hx, by simpa using hh⟩)) (by decide)
  rw [Nat.zero_add] at hid
  exact hid

namespace Valid

variable {lut : Lut}

theorem found {key : List Char} {i d : Nat} (hv : Valid lut)
    (h : content lut key = some (i, d)) :
    lutGetId lut key = (i, lutFlagExists) ∧ lutGet lut i = d ∧ lutGetKey lut i = some key := by
  obtain ⟨node, hm, rfl, rfl, rfl⟩ := exists_of_content h
  obtain ⟨hb, hh⟩ := List.mem_filter.mp hm
  have hf := hv.findId_mem hm
  refine ⟨idLoop_found hb (of_decide_eq_true hh) rfl (fun x hx hhx hk => ?_) 0, ?_, ?_⟩
  · rw [hv.eq_of_key (List.mem_filter.mpr ⟨hx, by simpa using hhx⟩) hm hk]
  · simp [lutGet, hf]
  · simp [lutGetKey, hf]

theorem absent {key : List Char} (hv : Valid lut) (h : content lut key = none)
    (hlt : (lut.nodesOf (mapGetHash key)).length < 2 ^ 16) :
    ∃ id, lutGetId lut key = (id, lutFlagNotFound) ∧
      id = lutId (mapGetHash key) (lut.nodesOf (mapGetHash key)).length ∧
      lutGet lut id = 0 ∧ lutGetKey lut id = none := by
  have hhash := mapGetHash_lt key
  have hk := content_eq_none.mp h
  have hid := lutGetId_absent hk
  rw [Nat.mod_eq_of_lt hlt] at hid
  have hnone : findId lut
      (lutId (mapGetHash key) (lut.nodesOf (mapGetHash key)).length) = none := by
    refine findId_none (fun node hm he => ?_)
    rw [lutIdGetHash_lutId hhash hlt] at hm
    have hids : node.id ∈ (lut.nodesOf (mapGetHash key)).map LutNode.id :=
      List.mem_map_of_mem hm
    rw [hv.ids, he] at hids
    obtain ⟨j, hj, hje⟩ := List.mem_map.mp hids
    rw [List.mem_range] at hj
    have := lutId_inj hhash (by omega) hlt hje
    omega
  refine ⟨lutId (mapGetHash key) (lut.nodesOf (mapGetHash key)).length, hid, rfl, ?_, ?_⟩
  · rw [lutGet, hnone]
    rfl
  · rw [lutGetKey, hnone]
    rfl

end Valid

end Lut

end AutoGentoo
