import AutoGentoo.MapHash
import AutoGentoo.Chains

/-! The hash map of `map.c`: items in singly linked chains, a new one at the head. -/

namespace AutoGentoo

/-- The data is an address, 0 for NULL. -/
structure MapItem where
  key : List Char
  data : Nat
  deriving DecidableEq, Repr

def MapItem.hash (item : MapItem) : Nat := mapGetHash item.key

/-- `n` and `overlaps` count in 32 bits. The table has a pointer of eight bytes for
every unit of `size`, so that twice a size that has been allocated is below `2 ^ 64`.
`threshold` is its product with a size, as it is cut to an integer. -/
structure Map where
  hashTable : List (List MapItem)
  n : Nat
  overlaps : Nat
  size : Nat
  reallocAt : Nat
  threshold : Nat → Nat

namespace Map

def mapNew (newSize : Nat) (threshold : Nat → Nat) : Map where
  hashTable := Chains.empty newSize
  n := 0
  overlaps := 0
  size := newSize
  reallocAt := threshold newSize
  threshold := threshold

/-- The loop of `prv_map_insert_item`: the data that was there, and the chain with the
new one. -/
def overwriteLoop (key : List Char) (data : Nat) : List MapItem → Option (Nat × List MapItem)
  | [] => none
  | iter :: next =>
    if iter.key = key then some (iter.data, { iter with data := data } :: next)
    else (overwriteLoop key data next).map fun r => (r.1, iter :: r.2)

/-- The data that is returned is that of an item with the same key. -/
def prvMapInsertItem (self : Map) (item : MapItem) : Map × Nat :=
  let bucket := Chains.bucket self.hashTable item.hash
  let self := if bucket ≠ [] then { self with overlaps := (self.overlaps + 1) % 2 ^ 32 } else self
  match overwriteLoop item.key item.data bucket with
  | some (out, chain) =>
    ({ self with hashTable := Chains.modifyBucket self.hashTable item.hash fun _ => chain }, out)
  | none =>
    ({ self with
        hashTable := Chains.modifyBucket self.hashTable item.hash fun bucket => item :: bucket
        n := (self.n + 1) % 2 ^ 32 }, 0)

/-- The end of the list comes first. -/
def prvMapReallocItem (self : Map) : List MapItem → Map
  | [] => self
  | list :: next => (prvMapInsertItem (prvMapReallocItem self next) list).1

def mapRealloc (self : Map) (size : Nat) : Map :=
  self.hashTable.foldl prvMapReallocItem { self with
    hashTable := Chains.empty size
    size := size
    reallocAt := self.threshold size }

def mapGet (self : Map) (key : List Char) : Nat :=
  (((Chains.bucket self.hashTable (mapGetHash key)).find? (·.key = key)).map MapItem.data).getD 0

/-- What `before` comes to behind an item that is passed: `none` is its NULL. -/
def advance : Option Nat → Option Nat
  | none => some 0
  | some place => some (place + 1)

/-- The chain without the item behind `before`. -/
def unlink (chain next : List MapItem) : Option Nat → List MapItem
  | none => next
  | some place => chain.take (place + 1) ++ next

/-- The loop of `map_remove` over a chain, from the item `current` on. `before` is a
place in the chain. -/
def removeLoop (key : List Char) (chain : List MapItem) :
    Option Nat → List MapItem → Option (Nat × List MapItem)
  | _, [] => none
  | before, current :: next =>
    if current.key = key then some (current.data, unlink chain next before)
    else removeLoop key chain (advance before) next

/-- The map, and the data of the key. -/
def mapRemove (self : Map) (key : List Char) : Map × Nat :=
  let hash := mapGetHash key
  let bucket := Chains.bucket self.hashTable hash
  match removeLoop key bucket none bucket with
  | some (out, chain) =>
    ({ self with hashTable := Chains.modifyBucket self.hashTable hash fun _ => chain }, out)
  | none => (self, 0)

/-- The check in front of an insertion. -/
def grows (self : Map) : Bool := self.reallocAt ≤ (self.n + 1) % 2 ^ 32

def grow (self : Map) : Map := if self.grows then mapRealloc self (self.size * 2) else self

def mapInsert (self : Map) (key : List Char) (data : Nat) : Map :=
  (prvMapInsertItem self.grow { key := key, data := data }).1

/-! ### The items -/

/-- Everything in the table, chain by chain. -/
def items (self : Map) : List MapItem := self.hashTable.flatten

/-- Each key at most once, in the chain of its hash. -/
structure Valid (map : Map) : Prop where
  size_pos : 0 < map.size
  table_size : map.hashTable.length = map.size
  n_lt : map.n < 2 ^ 32
  placed : Chains.Placed MapItem.hash map.hashTable
  keys : (map.items.map MapItem.key).Nodup

variable {map : Map}

theorem Valid.table_ne_nil (hv : Valid map) : map.hashTable ≠ [] := by
  rw [← List.length_pos_iff, hv.table_size]
  exact hv.size_pos

theorem valid_new {size : Nat} (hs : 0 < size) (threshold : Nat → Nat) :
    Valid (mapNew size threshold) :=
  ⟨hs, List.length_replicate, Nat.two_pow_pos 32, Chains.placed_empty size,
    by simp [items, mapNew, Chains.empty]⟩

theorem Valid.eq_of_key (hv : Valid map) {a b : MapItem} (ha : a ∈ map.items) (hb : b ∈ map.items)
    (h : a.key = b.key) : a = b := List.inj_on_of_nodup_map hv.keys ha hb h

theorem Valid.mem_bucket (hv : Valid map) {item : MapItem} :
    item ∈ Chains.bucket map.hashTable item.hash ↔ item ∈ map.items := Chains.mem_bucket_iff hv.placed

theorem overwriteLoop_none {key : List Char} {chain : List MapItem}
    (h : ∀ item ∈ chain, item.key ≠ key) (data : Nat) : overwriteLoop key data chain = none := by
  induction chain with
  | nil => rfl
  | cons item chain ih =>
    obtain ⟨hitem, hchain⟩ := List.forall_mem_cons.mp h
    rw [overwriteLoop, if_neg hitem, ih hchain]
    rfl

theorem overwriteLoop_some {key : List Char} {front : List MapItem} {item : MapItem}
    (hfront : ∀ x ∈ front, x.key ≠ key) (hitem : item.key = key) (back : List MapItem) (data : Nat) :
    overwriteLoop key data (front ++ item :: back) =
      some (item.data, front ++ { item with data := data } :: back) := by
  induction front with
  | nil => exact if_pos hitem
  | cons x front ih =>
    obtain ⟨hx, hrest⟩ := List.forall_mem_cons.mp hfront
    rw [List.cons_append, overwriteLoop, if_neg hx, ih hrest]
    rfl

/-- The place of the item in front of another. -/
def placeBefore : Nat → Option Nat
  | 0 => none
  | place + 1 => some place

theorem advance_placeBefore (n : Nat) : advance (placeBefore n) = placeBefore (n + 1) := by
  cases n <;> rfl

theorem removeLoop_none {key : List Char} {chain current : List MapItem}
    (h : ∀ item ∈ current, item.key ≠ key) (before : Option Nat) :
    removeLoop key chain before current = none := by
  induction current generalizing before with
  | nil => rfl
  | cons item current ih =>
    obtain ⟨hitem, hrest⟩ := List.forall_mem_cons.mp h
    rw [removeLoop, if_neg hitem, ih hrest]

/-- The trailing pointer is at the item in front of the one that is unlinked. -/
theorem removeLoop_some {key : List Char} (passed : List MapItem) {front : List MapItem}
    {item : MapItem} (hfront : ∀ x ∈ front, x.key ≠ key) (hitem : item.key = key) (back : List MapItem) :
    removeLoop key (passed ++ (front ++ item :: back)) (placeBefore passed.length)
      (front ++ item :: back) = some (item.data, passed ++ (front ++ back)) := by
  induction front generalizing passed with
  | nil =>
    rw [List.nil_append, removeLoop, if_pos hitem]
    cases passed with
    | nil => rfl
    | cons x passed => simp [placeBefore, unlink]
  | cons x front ih =>
    obtain ⟨hx, hrest⟩ := List.forall_mem_cons.mp hfront
    have hnext := ih (passed ++ [x]) hrest
    rw [List.append_assoc, List.append_assoc] at hnext
    rw [List.cons_append, removeLoop, if_neg hx, advance_placeBefore]
    simpa using hnext

end Map

end AutoGentoo
