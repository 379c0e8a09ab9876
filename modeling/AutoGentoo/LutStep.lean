import AutoGentoo.LutInvariant

/-! Growth, insertion of a new key and overwriting keep the invariant and
change the map at one key only. -/

namespace AutoGentoo

namespace Lut

theorem moveNode_foldl (chain : List LutNode) (t : List (List LutNode)) {n : Nat}
    (hn : n < 2 ^ 32) :
    chain.foldl moveNode (t, n) =
      (chain.foldl (Chains.add LutNode.hash) t, (n + chain.length) % 2 ^ 32) := by
  induction chain generalizing t n with
  | nil => simpa using (Nat.mod_eq_of_lt hn).symm
  | cons node chain ih =>
    simp only [List.foldl_cons, moveNode, List.length_cons]
    rw [ih _ (Nat.mod_lt _ (by decide))]
    congr 1
    omega

/-- Stopping at the old count leaves nothing behind while it has not wrapped. -/
theorem moveChains_eq {oldCount : Nat} (hc : oldCount < 2 ^ 32) (chains : List (List LutNode))
    (t : List (List LutNode)) {n : Nat} (hn : n + chains.flatten.length = oldCount) :
    moveChains oldCount chains (t, n) =
      (chains.flatten.foldl (Chains.add LutNode.hash) t, oldCount) := by
  induction chains generalizing t n with
  | nil =>
    have he : n = oldCount := by simpa using hn
    simp [moveChains, he]
  | cons chain rest ih =>
    simp only [List.flatten_cons, List.length_append] at hn
    rw [moveChains]
    by_cases hlt : n < oldCount
    · rw [if_pos hlt, moveNode_foldl chain t (by omega), Nat.mod_eq_of_lt (by omega),
        ih _ (by omega), List.flatten_cons, List.foldl_append]
    · have h0 : (chain :: rest).flatten = [] := by
        rw [← List.length_eq_zero_iff, List.flatten_cons, List.length_append]
        omega
      have he : n = oldCount := by omega
      simp [h0, he]

variable {lut : Lut}

/-- What growth must leave as it was, and the room it makes. -/
structure Grown (lut lut' : Lut) : Prop where
  valid : Valid lut'
  nodes : ∀ h, lut'.nodesOf h = lut.nodesOf h
  room : min (lut'.count + 2) (2 ^ 32) ≤ lut'.reallocAt

/-- The same, of a table with any number of collisions. -/
structure Regrown (lut lut' : Lut) : Prop where
  shaped : Shaped lut'
  nodes : ∀ h, lut'.nodesOf h = lut.nodesOf h
  room : min (lut'.count + 2) (2 ^ 32) ≤ lut'.reallocAt

theorem Regrown.grown {lut' : Lut} (hg : Regrown lut lut') (hv : Valid lut) : Grown lut lut' := by
  obtain ⟨⟨hpos, htable, hrealloc, hplaced, hcount, hroom⟩, hnodes, hmore⟩ := hg
  refine ⟨⟨hpos, htable, hrealloc, hplaced, hcount, hroom, ?_, ?_, ?_, ?_⟩, hnodes, hmore⟩
  all_goals intro h; rw [hnodes]
  · exact hv.few h
  · exact hv.ids h
  · exact hv.hashes h
  · exact hv.keys h

theorem realloc_spec (hs : Shaped lut) (hc : lut.count < 2 ^ 32) {size : Nat} (hpos : 0 < size)
    (hroom : min (lut.count + 2) (2 ^ 32) ≤ lutThreshold size) :
    ∃ lut', lutRealloc lut size = some lut' ∧ Regrown lut lut' := by
  have hn : lut.n = lut.count := by rw [hs.count_eq, Nat.mod_eq_of_lt hc]
  have hlt : lut.n < 2 ^ 32 := by omega
  have hmove := moveChains_eq hlt lut.table (Chains.empty size) (n := 0)
    (by rw [hn, count, Nat.zero_add])
  have hne : (Chains.empty size : List (List LutNode)) ≠ [] := by
    simp only [Chains.empty, ne_eq, List.replicate_eq_nil_iff]
    omega
  let lut' : Lut :=
    { table := lut.table.flatten.foldl (Chains.add LutNode.hash) (Chains.empty size)
      n := lut.n, size := size, reallocAt := lutThreshold size }
  have hcount : lut'.count = lut.count := by
    rw [count, Chains.length_flatten_foldl hne]
    simp [Chains.empty, count]
  refine ⟨lut', ?_, ⟨hpos, ?_, rfl, ?_, ?_, ?_⟩, fun h => ?_, ?_⟩
  · rw [lutRealloc, hmove]
    exact if_pos rfl
  · simp [lut', Chains.length_foldl, Chains.empty]
  · exact Chains.placed_foldl hne (Chains.placed_empty size) _
  · rw [hcount]
    exact hs.count_eq
  · right
    rw [hcount]
    exact le_trans (by omega) hroom
  · exact Chains.ofHash_refill hs.placed hpos h
  · rwa [hcount]

theorem regrow_spec (hs : Shaped lut) : ∃ lut', grow lut = some lut' ∧ Regrown lut lut' := by
  unfold grow
  have hroom := hs.room
  have hn := hs.count_eq
  have hpos := hs.size_pos
  obtain ⟨hle, hlow⟩ := lutThreshold_bounds lut.size
  rw [← hs.realloc_at] at hle hlow
  split_ifs with h
  · have hc : lut.count + 1 < 2 ^ 32 := by omega
    have hwrap : lut.size * 4 % 2 ^ 64 = lut.size * 4 := Nat.mod_eq_of_lt (by omega)
    obtain ⟨-, hlow'⟩ := lutThreshold_bounds (lut.size * 4)
    rw [hwrap]
    exact realloc_spec hs (by omega) (by omega) (by omega)
  · exact ⟨lut, rfl, hs, fun _ => rfl, by omega⟩

theorem grow_spec (hv : Valid lut) : ∃ lut', grow lut = some lut' ∧ Grown lut lut' := by
  obtain ⟨lut', hgrow, hg⟩ := regrow_spec hv.shaped
  exact ⟨lut', hgrow, hg.grown hv⟩

/-- The node a new key gets. -/
structure Fresh (lut : Lut) (node : LutNode) : Prop where
  absent : content lut node.key = none
  few : (lut.nodesOf (mapGetHash node.key)).length < 2 ^ 16
  id_eq : node.id = lutId (mapGetHash node.key) (lut.nodesOf (mapGetHash node.key)).length

theorem Fresh.hash_eq {node : LutNode} (hf : Fresh lut node) :
    node.hash = mapGetHash node.key := by
  rw [LutNode.hash, hf.id_eq, lutIdGetHash_lutId (mapGetHash_lt _) hf.few]

/-- The table with a node more. -/
def withNode (lut : Lut) (node : LutNode) : Lut :=
  { lut with
    table := Chains.add LutNode.hash lut.table node
    n := (lut.n + 1) % 2 ^ 32 }

theorem withNode_nodes_hash {node : LutNode} (hne : lut.table ≠ []) (h : Nat) :
    (withNode lut node).nodesOf h =
      if node.hash = h then lut.nodesOf h ++ [node] else lut.nodesOf h :=
  Chains.ofHash_add hne node h

theorem withNode_nodes {node : LutNode} (hv : Valid lut) (hf : Fresh lut node) (h : Nat) :
    (withNode lut node).nodesOf h =
      if mapGetHash node.key = h then lut.nodesOf h ++ [node] else lut.nodesOf h := by
  rw [← hf.hash_eq]
  exact withNode_nodes_hash hv.table_ne_nil h

theorem withNode_shaped {node : LutNode} (hs : Shaped lut)
    (hroom : min (lut.count + 2) (2 ^ 32) ≤ lut.reallocAt) : Shaped (withNode lut node) := by
  have hcount : (withNode lut node).count = lut.count + 1 :=
    Chains.length_flatten_add hs.table_ne_nil node
  refine ⟨hs.size_pos, (Chains.length_add _ _).trans hs.table_size, hs.realloc_at,
    Chains.placed_add hs.table_ne_nil hs.placed node, ?_, ?_⟩
  · rw [hcount]
    show (lut.n + 1) % 2 ^ 32 = _
    rw [hs.count_eq]
    omega
  · rw [hcount]
    exact .inr hroom

theorem withNode_valid {node : LutNode} (hv : Valid lut)
    (hroom : min (lut.count + 2) (2 ^ 32) ≤ lut.reallocAt) (hf : Fresh lut node) :
    Valid (withNode lut node) := by
  have hfew := hf.few
  have hid := hf.id_eq
  have habs := content_eq_none.mp hf.absent
  have hshaped : Shaped (withNode lut node) := withNode_shaped hv.shaped hroom
  obtain ⟨hpos, htable, hrealloc, hplaced, hcount, hmore⟩ := hshaped
  refine ⟨hpos, htable, hrealloc, hplaced, hcount, hmore, ?_, ?_, ?_, ?_⟩
  all_goals
    intro h
    rw [withNode_nodes hv hf]
    split_ifs with he
  · rw [he] at hfew
    rw [List.length_append, List.length_singleton]
    omega
  · exact hv.few h
  · rw [he] at hid
    rw [List.map_append, hv.ids h, List.length_append, List.length_singleton, List.range_succ,
      List.map_append, List.map_singleton, List.map_singleton, hid]
  · exact hv.ids h
  · intro x hx
    rcases List.mem_append.mp hx with hx | hx
    · exact hv.hashes h x hx
    · rw [List.mem_singleton.mp hx, he]
  · exact hv.hashes h
  · rw [he] at habs
    rw [List.map_append, List.nodup_append]
    refine ⟨hv.keys h, by simp, ?_⟩
    intro a ha b hb hab
    obtain ⟨x, hx, rfl⟩ := List.mem_map.mp ha
    rw [List.map_singleton, List.mem_singleton] at hb
    exact habs x hx (hab.trans hb)
  · exact hv.keys h

theorem withNode_content {node : LutNode} (hv : Valid lut) (hf : Fresh lut node) :
    content (withNode lut node) =
      Function.update (content lut) node.key (some (node.id, node.data)) := by
  funext key
  unfold content
  rw [withNode_nodes hv hf]
  by_cases hk : key = node.key
  · have hnone : (lut.nodesOf (mapGetHash node.key)).find? (·.key = node.key) = none := by
      simpa [content] using hf.absent
    rw [hk, Function.update_self, if_pos rfl, List.find?_append, hnone]
    simp
  · rw [Function.update_of_ne hk]
    split_ifs with he
    · simp [List.find?_append, Ne.symm hk]
    · rfl

/-- The node that stays in place of the one found. -/
def put (id data flag : Nat) (node : LutNode) : LutNode :=
  if node.id = id then { node with data := data, flags := flag } else node

@[simp] theorem put_id (id data flag : Nat) (node : LutNode) :
    (put id data flag node).id = node.id := by
  unfold put
  split_ifs <;> rfl

@[simp] theorem put_key (id data flag : Nat) (node : LutNode) :
    (put id data flag node).key = node.key := by
  unfold put
  split_ifs <;> rfl

@[simp] theorem put_hash (id data flag : Nat) (node : LutNode) :
    (put id data flag node).hash = node.hash := by
  simp [LutNode.hash]

theorem put_of_ne {id data flag : Nat} {node : LutNode} (h : node.id ≠ id) :
    put id data flag node = node := if_neg h

theorem map_put_of_ne {id data flag : Nat} {l : List LutNode} (h : ∀ x ∈ l, x.id ≠ id) :
    l.map (put id data flag) = l := by
  rw [List.map_congr_left (g := fun x => x) (fun x hx => put_of_ne (h x hx)), List.map_id']

theorem overwrite_eq {id data flag : Nat} {b : List LutNode} (hex : ∃ x ∈ b, x.id = id)
    (hone : b.Pairwise (fun x y => x.id = id → y.id ≠ id)) :
    overwrite id data flag b = some (b.map (put id data flag)) := by
  induction b with
  | nil => simp at hex
  | cons x b ih =>
    rw [overwrite]
    rw [List.pairwise_cons] at hone
    by_cases hx : x.id = id
    · rw [if_pos hx, List.map_cons, map_put_of_ne (fun y hy => hone.1 y hy hx)]
      simp [put, hx]
    · have hex' : ∃ y ∈ b, y.id = id := by
        obtain ⟨y, hy, he⟩ := hex
        rcases List.mem_cons.mp hy with rfl | hy
        · exact absurd he hx
        · exact ⟨y, hy, he⟩
      rw [if_neg hx, ih hex' hone.2, List.map_cons, put_of_ne hx]
      rfl

/-- The table with other data under an id. -/
def withData (lut : Lut) (id data flag : Nat) : Lut :=
  { lut with
    table := Chains.modifyBucket lut.table (lutIdGetHash id)
      fun _ => (Chains.bucket lut.table (lutIdGetHash id)).map (put id data flag) }

theorem withData_nodes (hv : Valid lut) (id data flag h : Nat) :
    (withData lut id data flag).nodesOf h = (lut.nodesOf h).map (put id data flag) := by
  refine (Chains.ofHash_modify hv.table_ne_nil _ _ _).trans ?_
  split_ifs with he
  · rw [List.filter_map, nodesOf, Chains.ofHash, Chains.bucket_congr he]
    simp [Function.comp_def]
  · refine (map_put_of_ne (fun x hx hid => he ?_)).symm
    have hh : x.hash = h := of_decide_eq_true (List.mem_filter.mp hx).2
    rw [← hh, LutNode.hash, hid]

theorem withData_count (hv : Valid lut) (id data flag : Nat) :
    (withData lut id data flag).count = lut.count := by
  have hh := Chains.length_flatten_modifyBucket hv.table_ne_nil (lutIdGetHash id)
    (fun _ => (Chains.bucket lut.table (lutIdGetHash id)).map (put id data flag))
  rw [List.length_map] at hh
  exact Nat.add_right_cancel hh

theorem withData_valid (hv : Valid lut) (hroom : min (lut.count + 2) (2 ^ 32) ≤ lut.reallocAt)
    (id data flag : Nat) : Valid (withData lut id data flag) := by
  refine ⟨hv.size_pos, (Chains.length_modifyBucket _ _ _).trans hv.table_size, hv.realloc_at,
    Chains.placed_modify hv.table_ne_nil hv.placed ?_, ?_, ?_, ?_, ?_, ?_, ?_⟩
  · intro x hx
    obtain ⟨y, hy, rfl⟩ := List.mem_map.mp hx
    rw [put_hash]
    exact hv.placed _ y hy
  · rw [withData_count hv]
    exact hv.count_eq
  · rw [withData_count hv]
    refine .inr (le_trans ?_ hroom)
    omega
  all_goals
    intro h
    rw [withData_nodes hv]
  · rw [List.length_map]
    exact hv.few h
  · rw [List.length_map, List.map_map, ← hv.ids h]
    exact List.map_congr_left (fun x _ => put_id id data flag x)
  · intro x hx
    obtain ⟨y, hy, rfl⟩ := List.mem_map.mp hx
    rw [put_key]
    exact hv.hashes h y hy
  · have hk : LutNode.key ∘ put id data flag = LutNode.key := funext (put_key id data flag)
    rw [List.map_map, hk]
    exact hv.keys h

theorem withData_content (hv : Valid lut) {key : List Char} {id d : Nat}
    (h : content lut key = some (id, d)) (data flag : Nat) :
    content (withData lut id data flag) = Function.update (content lut) key (some (id, data)) := by
  funext key'
  have hfind : content (withData lut id data flag) key' =
      ((lut.nodesOf (mapGetHash key')).find? (·.key = key')).map
        fun node => ((put id data flag node).id, (put id data flag node).data) := by
    rw [content, withData_nodes hv, List.find?_map, Option.map_map]
    simp only [Function.comp_def, put_key]
  rw [hfind]
  by_cases hk : key' = key
  · obtain ⟨node, hf, he⟩ := Option.map_eq_some_iff.mp h
    have hid : node.id = id := congrArg Prod.fst he
    rw [hk, hf, Function.update_self]
    simp [put, hid]
  · rw [Function.update_of_ne hk]
    cases hf : (lut.nodesOf (mapGetHash key')).find? (·.key = key') with
    | none => simp [content, hf]
    | some node =>
      have hmem := List.mem_of_find?_eq_some hf
      have hkey : node.key = key' := by simpa using List.find?_some hf
      have hne : node.id ≠ id := by
        intro hid
        have hc := hv.content_mem hmem
        rw [hid, hkey] at hc
        exact hk (hv.content_inj hc h)
      simp [content, hf, put_of_ne hne]

theorem withData_spec (hv : Valid lut) {node : LutNode} {d : Nat}
    (h : content lut node.key = some (node.id, d))
    (hflag : node.flags &&& lutFlagNotFound = 0) (hflag' : node.flags &&& lutFlagExists ≠ 0) :
    insertNode lut node = some (withData lut node.id node.data node.flags) := by
  obtain ⟨x, hx, -, hid, -⟩ := exists_of_content h
  obtain ⟨hb, hh⟩ := List.mem_filter.mp hx
  have hhash : node.hash = mapGetHash node.key := by
    rw [← of_decide_eq_true hh, LutNode.hash, LutNode.hash, hid]
  have hpair := hv.ids_nodup (mapGetHash node.key)
  rw [List.Nodup, List.pairwise_map, nodesOf, Chains.ofHash, List.pairwise_filter] at hpair
  have hone : (Chains.bucket lut.table node.hash).Pairwise
      (fun x y => x.id = node.id → y.id ≠ node.id) := by
    rw [hhash]
    refine hpair.imp (fun {a b} hab ha hb => ?_)
    have hash_of : ∀ z : LutNode, z.id = node.id → decide (z.hash = mapGetHash node.key) = true :=
      fun z hz => by rw [LutNode.hash, hz, ← hhash]; exact decide_eq_true rfl
    exact hab (hash_of a ha) (hash_of b hb) (ha.trans hb.symm)
  have hex : ∃ y ∈ Chains.bucket lut.table node.hash, y.id = node.id :=
    ⟨x, by rw [hhash]; exact hb, hid⟩
  rw [insertNode, if_neg (not_not.mpr hflag), if_pos hflag', overwrite_eq hex hone]
  rfl

end Lut

end AutoGentoo
