import AutoGentoo.MapOperations
import Mathlib.Data.List.Induction

/-! Any run of insertions and removals on a hash map is one on a finite map. -/

namespace AutoGentoo

namespace Map

variable {map map' : Map}

/-- The data under a key. -/
def content (map : Map) (key : List Char) : Option Nat :=
  (map.items.find? (·.key = key)).map MapItem.data

theorem content_eq_some (hv : Valid map) {key : List Char} {data : Nat} :
    content map key = some data ↔ ⟨key, data⟩ ∈ map.items := by
  constructor
  · intro h
    obtain ⟨⟨k, d⟩, hfind, rfl⟩ := Option.map_eq_some_iff.mp h
    have hk : k = key := by simpa using List.find?_some hfind
    subst hk
    exact List.mem_of_find?_eq_some hfind
  · intro h
    cases hfind : map.items.find? (·.key = key) with
    | none =>
      have hno := List.find?_eq_none.mp hfind _ h
      simp at hno
    | some item =>
      have hk : item.key = key := by simpa using List.find?_some hfind
      rw [content, hfind, hv.eq_of_key (List.mem_of_find?_eq_some hfind) h hk]
      rfl

theorem content_eq_none {key : List Char} :
    content map key = none ↔ key ∉ map.items.map MapItem.key := by
  simp [content]

/-- Looking into one chain is enough. -/
theorem mapGet_eq (hv : Valid map) (key : List Char) : mapGet map key = (content map key).getD 0 := by
  cases hc : content map key with
  | none =>
    have hnone : (Chains.bucket map.hashTable (mapGetHash key)).find? (·.key = key) = none := by
      rw [List.find?_eq_none]
      intro x hx hk
      have hk : x.key = key := by simpa using hk
      have hhash : x.hash = mapGetHash key := congrArg mapGetHash hk
      rw [← hhash, hv.mem_bucket] at hx
      exact content_eq_none.mp hc (List.mem_map.mpr ⟨x, hx, hk⟩)
    rw [mapGet, hnone]
    rfl
  | some data =>
    obtain ⟨front, back, hbucket, hfront⟩ := hv.split_bucket ((content_eq_some hv).mp hc)
    have hhash : mapGetHash key = (MapItem.mk key data).hash := rfl
    have hfind : (front ++ ⟨key, data⟩ :: back).find? (·.key = key) = some ⟨key, data⟩ := by
      rw [List.find?_append, List.find?_eq_none.mpr fun x hx => by simpa using hfront x hx]
      simp
    rw [mapGet, hhash, hbucket, hfind]
    rfl

theorem content_put (hv : Valid map) (hv' : Valid map') {item : MapItem} {rest : List MapItem}
    (hitems : map'.items.Perm (item :: rest))
    (hothers : ∀ x : MapItem, x.key ≠ item.key → (x ∈ rest ↔ x ∈ map.items)) :
    content map' = Function.update (content map) item.key (some item.data) := by
  funext key
  apply Option.ext
  intro data
  rw [content_eq_some hv', hitems.mem_iff, List.mem_cons]
  by_cases hk : key = item.key
  · subst hk
    rw [Function.update_self, Option.some.injEq]
    constructor
    · rintro (he | hm)
      · rw [← he]
      · have hkeys := (hitems.map MapItem.key).nodup_iff.mp hv'.keys
        rw [List.map_cons, List.nodup_cons] at hkeys
        exact absurd (List.mem_map_of_mem hm) hkeys.1
    · rintro rfl
      exact .inl rfl
  · have hne : (⟨key, data⟩ : MapItem) ≠ item := fun he => hk (congrArg MapItem.key he)
    rw [Function.update_of_ne hk, content_eq_some hv, or_iff_right hne]
    exact hothers ⟨key, data⟩ hk

theorem content_drop (hv : Valid map) (hv' : Valid map') {key : List Char}
    (hkey : key ∉ map'.items.map MapItem.key)
    (hothers : ∀ x : MapItem, x.key ≠ key → (x ∈ map'.items ↔ x ∈ map.items)) :
    content map' = Function.update (content map) key none := by
  funext k
  by_cases hk : k = key
  · rw [hk, Function.update_self, content_eq_none.mpr hkey]
  · rw [Function.update_of_ne hk]
    apply Option.ext
    intro data
    rw [content_eq_some hv', content_eq_some hv]
    exact hothers ⟨k, data⟩ hk

theorem prvMapInsertItem_content (hv : Valid map) (item : MapItem) :
    Valid (prvMapInsertItem map item).1 ∧ content (prvMapInsertItem map item).1 =
      Function.update (content map) item.key (some item.data) := by
  by_cases h : item.key ∈ map.items.map MapItem.key
  · obtain ⟨old, hold, hk⟩ := List.mem_map.mp h
    obtain ⟨map', rest, hinsert, hrest, hb⟩ := prvMapInsertItem_old hv item hold hk
    rw [hinsert]
    refine ⟨hb.valid, content_put hv hb.valid hb.items fun x hx => ?_⟩
    rw [hrest.mem_iff, List.mem_cons, or_iff_right fun he : x = old => hx (he ▸ hk)]
  · obtain ⟨map', hinsert, hb⟩ := prvMapInsertItem_new hv item h
    rw [hinsert]
    exact ⟨hb.valid, content_put hv hb.valid hb.items fun _ _ => .rfl⟩

theorem mapInsert_spec (hv : Valid map) (key : List Char) (data : Nat) :
    Valid (mapInsert map key data) ∧
      content (mapInsert map key data) = Function.update (content map) key (some data) := by
  obtain ⟨hgrown, hitems⟩ := grow_items hv
  have hsame : content map.grow = content map := by
    funext k
    apply Option.ext
    intro d
    rw [content_eq_some hgrown, content_eq_some hv, hitems.mem_iff]
  rw [← hsame]
  exact prvMapInsertItem_content hgrown ⟨key, data⟩

theorem mapRemove_spec (hv : Valid map) (key : List Char) :
    Valid (mapRemove map key).1 ∧ (mapRemove map key).2 = (content map key).getD 0 ∧
      content (mapRemove map key).1 = Function.update (content map) key none := by
  by_cases h : key ∈ map.items.map MapItem.key
  · obtain ⟨⟨k, data⟩, hm, rfl⟩ := List.mem_map.mp h
    obtain ⟨map', rest, hremove, hrest, hb⟩ := mapRemove_old hv hm
    have hkeys := (hrest.map MapItem.key).nodup_iff.mp hv.keys
    rw [List.map_cons, List.nodup_cons] at hkeys
    dsimp only at hremove ⊢
    rw [hremove, (content_eq_some hv).mpr hm]
    refine ⟨hb.valid, rfl, content_drop hv hb.valid ?_ fun x hx => ?_⟩
    · rw [(hb.items.map MapItem.key).mem_iff]
      exact hkeys.1
    · rw [hb.items.mem_iff, hrest.mem_iff, List.mem_cons]
      exact (or_iff_right fun he : x = _ => hx (he ▸ rfl)).symm
  · have hnone : content map key = none := content_eq_none.mpr h
    rw [mapRemove_new hv h, hnone]
    exact ⟨hv, rfl, (Function.update_eq_self_iff.mpr hnone.symm).symm⟩

/-! ### Runs -/

inductive MapStep
  | insert (key : List Char) (data : Nat)
  | remove (key : List Char)
  deriving DecidableEq, Repr

namespace MapStep

def key : MapStep → List Char
  | insert key _ => key
  | remove key => key

/-- What the step leaves under its key. -/
def leaves : MapStep → Option Nat
  | insert _ data => some data
  | remove _ => none

end MapStep

def step (self : Map) : MapStep → Map
  | .insert key data => mapInsert self key data
  | .remove key => (mapRemove self key).1

/-- What the last step that names a key leaves there. -/
def latest (ops : List MapStep) (key : List Char) : Option Nat :=
  (ops.reverse.find? (·.key = key)).bind MapStep.leaves

theorem step_spec (hv : Valid map) (op : MapStep) : Valid (map.step op) ∧
    content (map.step op) = Function.update (content map) op.key op.leaves := by
  cases op with
  | insert key data => exact mapInsert_spec hv key data
  | remove key =>
    obtain ⟨hvalid, -, hcontent⟩ := mapRemove_spec hv key
    exact ⟨hvalid, hcontent⟩

theorem content_new (size : Nat) (threshold : Nat → Nat) (key : List Char) :
    content (mapNew size threshold) key = none := by
  simp [content, items, mapNew, Chains.empty]

theorem run_spec {size : Nat} (hs : 0 < size) (threshold : Nat → Nat) (ops : List MapStep) :
    Valid (ops.foldl step (mapNew size threshold)) ∧
      ∀ key, content (ops.foldl step (mapNew size threshold)) key = latest ops key := by
  induction ops using List.reverseRecOn with
  | nil => exact ⟨valid_new hs threshold, content_new size threshold⟩
  | append_singleton ops op ih =>
    obtain ⟨hvalid, hcontent⟩ := step_spec ih.1 op
    rw [List.foldl_concat]
    refine ⟨hvalid, fun key => ?_⟩
    rw [hcontent, latest, List.reverse_concat]
    by_cases hk : op.key = key
    · rw [List.find?_cons_of_pos (by simpa using hk), ← hk, Function.update_self]
      rfl
    · rw [List.find?_cons_of_neg (by simpa using hk), Function.update_of_ne (Ne.symm hk), ih.2]
      rfl

/-- After any run on a new map a key has the data of its last insertion, unless it has
been removed since; removing it gives the same data, and changes no other key. -/
theorem map_refines_latest {size : Nat} (hs : 0 < size) (threshold : Nat → Nat) (ops : List MapStep)
    (key : List Char) :
    let map := ops.foldl step (mapNew size threshold)
    mapGet map key = (latest ops key).getD 0 ∧
      (mapRemove map key).2 = (latest ops key).getD 0 ∧
      mapGet (mapRemove map key).1 key = 0 ∧
      ∀ other, other ≠ key → mapGet (mapRemove map key).1 other = mapGet map other := by
  obtain ⟨hv, hcontent⟩ := run_spec hs threshold ops
  obtain ⟨hvalid, hdata, hremoved⟩ := mapRemove_spec hv key
  refine ⟨?_, ?_, ?_, fun other hne => ?_⟩
  · rw [mapGet_eq hv, hcontent]
  · rw [hdata, hcontent]
  · rw [mapGet_eq hvalid, hremoved, Function.update_self]
    rfl
  · rw [mapGet_eq hvalid, hremoved, Function.update_of_ne hne, mapGet_eq hv]

/-- One bucket that grows at every insertion. -/
theorem map_refines_latest_growing :
    mapGet ([.insert "a".toList 1, .insert "b".toList 2, .remove "a".toList,
      .insert "b".toList 3].foldl step (mapNew 1 fun _ => 0)) "b".toList = 3 :=
  (map_refines_latest Nat.one_pos (fun _ => 0) [.insert "a".toList 1, .insert "b".toList 2,
    .remove "a".toList, .insert "b".toList 3] "b".toList).1

end Map

end AutoGentoo
