import AutoGentoo.MapTable
import Mathlib.Data.List.Nodup

/-! What insertion, removal and growth make of the items of a hash map. -/

namespace AutoGentoo

namespace Map

variable {map map' : Map}

/-- The fields that only growth sets. -/
structure SameSettings (map map' : Map) : Prop where
  size : map'.size = map.size
  reallocAt : map'.reallocAt = map.reallocAt
  threshold : map'.threshold = map.threshold

theorem SameSettings.trans {last : Map} (h : SameSettings map map') (h' : SameSettings map' last) :
    SameSettings map last :=
  ⟨h'.size.trans h.size, h'.reallocAt.trans h.reallocAt, h'.threshold.trans h.threshold⟩

theorem Valid.modify (hv : Valid map) {h : Nat} {f : List MapItem → List MapItem}
    (htable : map'.hashTable = Chains.modifyBucket map.hashTable h f) (hsize : map'.size = map.size)
    (hn : map'.n < 2 ^ 32) (hplaced : ∀ x ∈ f (Chains.bucket map.hashTable h),
      x.hash % map.hashTable.length = h % map.hashTable.length)
    (hkeys : (map'.items.map MapItem.key).Nodup) : Valid map' := by
  refine ⟨hsize ▸ hv.size_pos, ?_, hn, ?_, hkeys⟩
  · rw [htable, Chains.length_modifyBucket, hv.table_size, hsize]
  · rw [htable]
    exact Chains.placed_modify hv.table_ne_nil hv.placed hplaced

/-- What an operation makes of the items and of `n`. -/
structure Becomes (map map' : Map) (items : List MapItem) (n : Nat) : Prop where
  valid : Valid map'
  items : map'.items.Perm items
  n : map'.n = n
  settings : SameSettings map map'

theorem prvMapInsertItem_new (hv : Valid map) (item : MapItem)
    (h : item.key ∉ map.items.map MapItem.key) : ∃ map', prvMapInsertItem map item = (map', 0) ∧
      Becomes map map' (item :: map.items) ((map.n + 1) % 2 ^ 32) := by
  have hnone : overwriteLoop item.key item.data (Chains.bucket map.hashTable item.hash) = none := by
    apply overwriteLoop_none
    intro x hx hk
    have hhash : x.hash = item.hash := congrArg mapGetHash hk
    rw [← hhash, hv.mem_bucket] at hx
    exact h (List.mem_map.mpr ⟨x, hx, hk⟩)
  obtain ⟨rest, hrest, hmodify⟩ := Chains.flatten_modifyBucket_perm hv.table_ne_nil item.hash
  have hitems : (Chains.modifyBucket map.hashTable item.hash fun bucket => item :: bucket).flatten.Perm
      (item :: map.items) := (hmodify fun bucket => item :: bucket).trans (hrest.symm.cons item)
  have hkeys : ((Chains.modifyBucket map.hashTable item.hash fun bucket => item :: bucket).flatten.map
      MapItem.key).Nodup := by
    rw [(hitems.map MapItem.key).nodup_iff, List.map_cons, List.nodup_cons]
    exact ⟨h, hv.keys⟩
  have hplaced : ∀ x ∈ item :: Chains.bucket map.hashTable item.hash,
      x.hash % map.hashTable.length = item.hash % map.hashTable.length := by
    intro x hx
    obtain rfl | hx := List.mem_cons.mp hx
    · rfl
    · exact hv.placed _ x hx
  have hn : (map.n + 1) % 2 ^ 32 < 2 ^ 32 := Nat.mod_lt _ (Nat.two_pow_pos 32)
  rw [prvMapInsertItem]
  by_cases hb : Chains.bucket map.hashTable item.hash = []
  · simp only [hnone, if_neg (not_not.mpr hb)]
    exact ⟨_, rfl, hv.modify rfl rfl hn hplaced hkeys, hitems, rfl, rfl, rfl, rfl⟩
  · simp only [hnone, if_pos hb]
    exact ⟨_, rfl, hv.modify rfl rfl hn hplaced hkeys, hitems, rfl, rfl, rfl, rfl⟩

/-- An item lies in the chain of its hash behind others with other keys. -/
theorem Valid.split_bucket (hv : Valid map) {item : MapItem} (h : item ∈ map.items) :
    ∃ front back, Chains.bucket map.hashTable item.hash = front ++ item :: back ∧
      ∀ x ∈ front, x.key ≠ item.key := by
  obtain ⟨front, back, hbucket⟩ := List.append_of_mem (hv.mem_bucket.mpr h)
  refine ⟨front, back, hbucket, fun x hx hk => ?_⟩
  obtain ⟨rest, hrest, -⟩ := Chains.flatten_modifyBucket_perm hv.table_ne_nil item.hash
  have hkeys := ((hrest.map MapItem.key).nodup_iff.mp hv.keys)
  rw [hbucket, List.map_append, List.map_append] at hkeys
  have hfront := (List.nodup_append.mp hkeys.of_append_left).2.2
  exact hfront x.key (List.mem_map_of_mem hx) item.key (by simp) hk

theorem prvMapInsertItem_old (hv : Valid map) (item : MapItem) {old : MapItem} (h : old ∈ map.items)
    (hk : old.key = item.key) : ∃ map' rest, prvMapInsertItem map item = (map', old.data) ∧
      map.items.Perm (old :: rest) ∧ Becomes map map' (item :: rest) map.n := by
  have hhash : old.hash = item.hash := congrArg mapGetHash hk
  obtain ⟨front, back, hbucket, hfront⟩ := hv.split_bucket h
  rw [hhash] at hbucket
  rw [hk] at hfront
  have hput : ({ old with data := item.data } : MapItem) = item := by rw [hk]
  have hloop : overwriteLoop item.key item.data (Chains.bucket map.hashTable item.hash) =
      some (old.data, front ++ item :: back) := by
    rw [hbucket, overwriteLoop_some hfront hk, hput]
  obtain ⟨rest, hrest, hreplace, -⟩ := Chains.flatten_replace_perm hv.table_ne_nil hbucket
  have hkeys : ((Chains.modifyBucket map.hashTable item.hash fun _ => front ++ item :: back).flatten.map
      MapItem.key).Nodup := by
    rw [((hreplace item).map MapItem.key).nodup_iff, List.map_cons, ← hk, ← List.map_cons,
      ← (hrest.map MapItem.key).nodup_iff]
    exact hv.keys
  have hplaced := hv.placed.replace hbucket hhash.symm
  have hne : Chains.bucket map.hashTable item.hash ≠ [] := by simp [hbucket]
  rw [prvMapInsertItem]
  simp only [if_pos hne, hloop]
  exact ⟨_, rest, rfl, hrest, hv.modify rfl rfl hv.n_lt hplaced hkeys, hreplace item, rfl, rfl, rfl, rfl⟩

theorem mapRemove_new (hv : Valid map) {key : List Char} (h : key ∉ map.items.map MapItem.key) :
    mapRemove map key = (map, 0) := by
  have hnone : removeLoop key (Chains.bucket map.hashTable (mapGetHash key)) none
      (Chains.bucket map.hashTable (mapGetHash key)) = none := by
    apply removeLoop_none
    intro x hx hk
    have hhash : x.hash = mapGetHash key := congrArg mapGetHash hk
    rw [← hhash, hv.mem_bucket] at hx
    exact h (List.mem_map.mpr ⟨x, hx, hk⟩)
  simp only [mapRemove, hnone]

theorem mapRemove_old (hv : Valid map) {item : MapItem} (h : item ∈ map.items) :
    ∃ map' rest, mapRemove map item.key = (map', item.data) ∧
      map.items.Perm (item :: rest) ∧ Becomes map map' rest map.n := by
  obtain ⟨front, back, hbucket, hfront⟩ := hv.split_bucket h
  obtain ⟨rest, hrest, -, hremove⟩ := Chains.flatten_replace_perm hv.table_ne_nil hbucket
  have hloop : removeLoop item.key (Chains.bucket map.hashTable item.hash) none
      (Chains.bucket map.hashTable item.hash) = some (item.data, front ++ back) := by
    rw [hbucket]
    exact removeLoop_some [] hfront rfl back
  have hkeys : ((Chains.modifyBucket map.hashTable item.hash fun _ => front ++ back).flatten.map
      MapItem.key).Nodup := by
    have hall := (hrest.map MapItem.key).nodup_iff.mp hv.keys
    rw [(hremove.map MapItem.key).nodup_iff]
    exact (List.nodup_cons.mp hall).2
  have hplaced : ∀ x ∈ front ++ back,
      x.hash % map.hashTable.length = item.hash % map.hashTable.length := by
    have hall := hv.placed item.hash
    rw [hbucket] at hall
    intro x hx
    obtain hx | hx := List.mem_append.mp hx
    · exact hall x (List.mem_append_left _ hx)
    · exact hall x (List.mem_append_right _ (List.mem_cons_of_mem _ hx))
  have hhash : mapGetHash item.key = item.hash := rfl
  simp only [mapRemove, hhash, hloop]
  exact ⟨_, rest, rfl, hrest, hv.modify rfl rfl hv.n_lt hplaced hkeys, hremove, rfl, rfl, rfl, rfl⟩

theorem prvMapReallocItem_spec (chain : List MapItem) (hv : Valid map)
    (h : ((chain ++ map.items).map MapItem.key).Nodup) :
    Becomes map (prvMapReallocItem map chain) (chain ++ map.items)
      ((map.n + chain.length) % 2 ^ 32) := by
  induction chain with
  | nil => exact ⟨hv, .refl _, (Nat.mod_eq_of_lt hv.n_lt).symm, rfl, rfl, rfl⟩
  | cons item chain ih =>
    rw [List.cons_append, List.map_cons, List.nodup_cons] at h
    have hnext := ih h.2
    have hkey : item.key ∉ (prvMapReallocItem map chain).items.map MapItem.key := by
      rw [(hnext.items.map MapItem.key).mem_iff]
      exact h.1
    obtain ⟨map', hinsert, hi⟩ := prvMapInsertItem_new hnext.valid item hkey
    rw [prvMapReallocItem, hinsert]
    refine ⟨hi.valid, hi.items.trans (hnext.items.cons item), ?_, hnext.settings.trans hi.settings⟩
    rw [hi.n, hnext.n, List.length_cons]
    omega

theorem reallocTable_spec (table : List (List MapItem)) (hv : Valid map)
    (h : ((table.flatten ++ map.items).map MapItem.key).Nodup) :
    Becomes map (table.foldl prvMapReallocItem map) (table.flatten ++ map.items)
      ((map.n + table.flatten.length) % 2 ^ 32) := by
  induction table generalizing map with
  | nil => exact ⟨hv, .refl _, (Nat.mod_eq_of_lt hv.n_lt).symm, rfl, rfl, rfl⟩
  | cons chain table ih =>
    have hsplit : ((chain :: table).flatten ++ map.items).Perm (table.flatten ++ (chain ++ map.items)) := by
      rw [List.flatten_cons, List.append_assoc]
      exact List.perm_append_comm_assoc _ _ _
    rw [(hsplit.map MapItem.key).nodup_iff] at h
    have hchain : ((chain ++ map.items).map MapItem.key).Nodup := by
      rw [List.map_append] at h
      exact h.of_append_right
    have hfirst := prvMapReallocItem_spec chain hv hchain
    have hmoved := hfirst.items.append_left table.flatten
    have hrest := ih hfirst.valid (by rwa [(hmoved.map MapItem.key).nodup_iff])
    refine ⟨hrest.valid, hrest.items.trans (hmoved.trans hsplit.symm), ?_,
      hfirst.settings.trans hrest.settings⟩
    rw [List.foldl_cons, hrest.n, hfirst.n, List.flatten_cons, List.length_append]
    omega

/-- What growth makes of a map: the count is not reset before the items are counted again. -/
structure Regrown (map map' : Map) (newSize : Nat) : Prop where
  valid : Valid map'
  items : map'.items.Perm map.items
  n : map'.n = (map.n + map.items.length) % 2 ^ 32
  size : map'.size = newSize
  reallocAt : map'.reallocAt = map.threshold newSize
  threshold : map'.threshold = map.threshold

theorem mapRealloc_spec (hv : Valid map) {size : Nat} (hs : 0 < size) :
    Regrown map (mapRealloc map size) size := by
  let blank : Map := { map with
    hashTable := Chains.empty size, size := size, reallocAt := map.threshold size }
  have hnone : blank.items = [] := by simp [blank, items, Chains.empty]
  have hblank : Valid blank :=
    ⟨hs, List.length_replicate, hv.n_lt, Chains.placed_empty size, by simp [hnone]⟩
  have hspec := reallocTable_spec map.hashTable hblank (by
    rw [hnone, List.append_nil]
    exact hv.keys)
  rw [hnone, List.append_nil] at hspec
  exact ⟨hspec.valid, hspec.items, hspec.n, hspec.settings.size, hspec.settings.reallocAt,
    hspec.settings.threshold⟩

theorem grow_items (hv : Valid map) : Valid map.grow ∧ map.grow.items.Perm map.items := by
  rw [grow]
  split_ifs
  · have hg := mapRealloc_spec hv (Nat.mul_pos hv.size_pos Nat.two_pos)
    exact ⟨hg.valid, hg.items⟩
  · exact ⟨hv, .refl _⟩

end Map

end AutoGentoo
