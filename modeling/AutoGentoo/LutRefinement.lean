import AutoGentoo.LutStep
import Mathlib.Data.List.Perm.Subperm

/-! A run of insertions into a fresh table is a run of updates of a finite map
from keys to ids and data. -/

namespace AutoGentoo

namespace Lut

structure Insertion where
  key : List Char
  data : Nat
  flags : Nat
  deriving DecidableEq, Repr

/-- The node an insertion makes, for what `lut_get_id` found. -/
def Insertion.node (op : Insertion) (found : Nat × Nat) : LutNode :=
  { id := found.1, key := op.key, data := op.data, flags := found.2 ||| op.flags }

/-- The flags a caller may pass. -/
def callerFlags : List Nat := [lutFlagNone, lutFlagReference, lutFlagPython, lutFlagArbitrary]

/-- The table after all insertions, with the ids they returned. -/
def runInserts (lut : Lut) : List Insertion → Option (Lut × List Nat)
  | [] => some (lut, [])
  | op :: ops => do
    let r ← lutInsert lut op.key op.data op.flags
    let rest ← runInserts r.1 ops
    return (rest.1, r.2 :: rest.2)

/-- Fewer than `2 ^ 16` of the keys share a hash. -/
def FewCollisions (keys : List (List Char)) : Prop :=
  ∀ h, (keys.dedup.filter (mapGetHash · = h)).length < 2 ^ 16

theorem FewCollisions.of_length {keys : List (List Char)} (h : keys.length < 2 ^ 16) : FewCollisions keys :=
  fun _ => ((List.length_filter_le _ _).trans (List.dedup_sublist _).length_le).trans_lt h

/-- The data of the last insertion under a key. -/
def latest (ops : List Insertion) (key : List Char) : Option Nat :=
  (ops.reverse.find? (·.key = key)).map Insertion.data

/-- The keys of the table are among the given ones. -/
def Within (keys : List (List Char)) (lut : Lut) : Prop :=
  ∀ key, content lut key ≠ none → key ∈ keys

theorem lutNew_valid {size : Nat} (hs : 0 < size) : Valid (lutNew size) := by
  have hnodes : ∀ h, (lutNew size).nodesOf h = [] := Chains.ofHash_empty size
  have hcount : (lutNew size).count = 0 := by simp [count, lutNew, Chains.empty]
  refine ⟨hs, List.length_replicate, rfl, Chains.placed_empty size, ?_, .inl hcount, ?_, ?_, ?_, ?_⟩
  · rw [hcount]
    rfl
  all_goals intro h; simp [hnodes]

theorem lutNew_content (size : Nat) (key : List Char) : content (lutNew size) key = none := by
  have hnodes : ∀ h, (lutNew size).nodesOf h = [] := Chains.ofHash_empty size
  simp [content, hnodes]

variable {lut : Lut} {keys : List (List Char)}

theorem absent_room (hv : Valid lut) (hw : Within keys lut) (hfew : FewCollisions keys)
    {key : List Char} (hkey : key ∈ keys) (h : content lut key = none) :
    (lut.nodesOf (mapGetHash key)).length + 1 < 2 ^ 16 := by
  have hnot : key ∉ (lut.nodesOf (mapGetHash key)).map LutNode.key := by
    intro hm
    obtain ⟨node, hn, hk⟩ := List.mem_map.mp hm
    exact content_eq_none.mp h node hn hk
  have hnd : (key :: (lut.nodesOf (mapGetHash key)).map LutNode.key).Nodup :=
    List.nodup_cons.mpr ⟨hnot, hv.keys _⟩
  have hsub : key :: (lut.nodesOf (mapGetHash key)).map LutNode.key ⊆
      keys.dedup.filter (mapGetHash · = mapGetHash key) := by
    intro x hx
    rw [List.mem_filter, List.mem_dedup, decide_eq_true_eq]
    rcases List.mem_cons.mp hx with rfl | hx
    · exact ⟨hkey, rfl⟩
    · obtain ⟨node, hn, rfl⟩ := List.mem_map.mp hx
      exact ⟨hw _ (by simp [hv.content_mem hn]), hv.hashes _ node hn⟩
  have hle := (List.Nodup.subperm hnd hsub).length_le
  rw [List.length_cons, List.length_map] at hle
  exact hle.trans_lt (hfew _)

theorem absent_few (hv : Valid lut) (hw : Within keys lut) (hfew : FewCollisions keys)
    (key : List Char) : (lut.nodesOf (mapGetHash key)).length < 2 ^ 16 := by
  have hsub : (lut.nodesOf (mapGetHash key)).map LutNode.key ⊆
      keys.dedup.filter (mapGetHash · = mapGetHash key) := by
    intro x hx
    obtain ⟨node, hn, rfl⟩ := List.mem_map.mp hx
    rw [List.mem_filter, List.mem_dedup, decide_eq_true_eq]
    exact ⟨hw _ (by simp [hv.content_mem hn]), hv.hashes _ node hn⟩
  have hle := (List.Nodup.subperm (hv.keys _) hsub).length_le
  rw [List.length_map] at hle
  exact hle.trans_lt (hfew _)

theorem callerFlags_fresh {flags : Nat} (h : flags ∈ callerFlags) :
    (lutFlagNotFound ||| flags) &&& lutFlagNotFound ≠ 0 := by
  have hall : ∀ f ∈ callerFlags, (lutFlagNotFound ||| f) &&& lutFlagNotFound ≠ 0 := by decide
  exact hall flags h

theorem callerFlags_exists {flags : Nat} (h : flags ∈ callerFlags) :
    (lutFlagExists ||| flags) &&& lutFlagNotFound = 0 ∧
      (lutFlagExists ||| flags) &&& lutFlagExists ≠ 0 := by
  have hall : ∀ f ∈ callerFlags, (lutFlagExists ||| f) &&& lutFlagNotFound = 0 ∧
      (lutFlagExists ||| f) &&& lutFlagExists ≠ 0 := by decide
  exact hall flags h

theorem Grown.content_eq {lut' : Lut} (hg : Grown lut lut') : content lut' = content lut := by
  funext key
  simp only [content, hg.nodes]

theorem lutInsert_eq {grown : Lut} (hgrow : grow lut = some grown) (op : Insertion) :
    lutInsert lut op.key op.data op.flags =
      (insertNode grown (op.node (lutGetId lut op.key))).map fun lut' =>
        (lut', (lutGetId lut op.key).1) := by
  simp only [lutInsert, lutInsertId, hgrow, Option.bind_eq_bind, Option.bind_some,
    Option.map_eq_bind]
  rfl

/-- What an insertion makes of the table. -/
structure Inserted (lut lut' : Lut) (key : List Char) (id data : Nat) : Prop where
  valid : Valid lut'
  content_eq : content lut' = Function.update (content lut) key (some (id, data))
  keeps : ∀ i d, content lut key = some (i, d) → id = i
  length_eq : ∀ h, (lut'.nodesOf h).length =
    (lut.nodesOf h).length + if content lut key = none ∧ mapGetHash key = h then 1 else 0

/-- One insertion updates the map at its key and keeps the id of a key that was
there. -/
theorem lutInsert_spec (hv : Valid lut) (op : Insertion)
    (hroom : content lut op.key = none → (lut.nodesOf (mapGetHash op.key)).length < 2 ^ 16)
    (hflags : op.flags ∈ callerFlags) :
    ∃ lut', lutInsert lut op.key op.data op.flags = some (lut', (lutGetId lut op.key).1) ∧
      Inserted lut lut' op.key (lutGetId lut op.key).1 op.data := by
  obtain ⟨grown, hgrow, hg⟩ := grow_spec hv
  rw [lutInsert_eq hgrow]
  cases hc : content lut op.key with
  | none =>
    obtain ⟨id, hid, heq, -, -⟩ := hv.absent hc (hroom hc)
    rw [hid]
    have hf : Fresh grown (op.node (id, lutFlagNotFound)) := by
      refine ⟨hg.content_eq ▸ hc, ?_, ?_⟩
      · rw [hg.nodes]
        exact hroom hc
      · rw [hg.nodes]
        exact heq
    have hins : insertNode grown (op.node (id, lutFlagNotFound)) =
        some (withNode grown (op.node (id, lutFlagNotFound))) :=
      if_pos (callerFlags_fresh hflags)
    rw [hins]
    refine ⟨_, rfl, withNode_valid hg.valid hg.room hf, ?_, by simp [hc], fun h => ?_⟩
    · rw [withNode_content hg.valid hf, hg.content_eq]
      rfl
    · rw [withNode_nodes hg.valid hf, hg.nodes]
      simp only [hc, true_and]
      show (if mapGetHash op.key = h then _ else _ : List LutNode).length = _
      split_ifs <;> simp
  | some c =>
    obtain ⟨id, d⟩ := c
    obtain ⟨hid, -, -⟩ := hv.found hc
    rw [hid]
    have hc' : content grown (op.node (id, lutFlagExists)).key =
        some ((op.node (id, lutFlagExists)).id, d) := by
      rw [hg.content_eq]
      exact hc
    have hput := withData_spec hg.valid hc'
      (callerFlags_exists hflags).1 (callerFlags_exists hflags).2
    rw [hput]
    refine ⟨_, rfl, withData_valid hg.valid hg.room _ _ _, ?_, ?_, fun h => ?_⟩
    · rw [← hg.content_eq]
      exact withData_content hg.valid hc' _ _
    · rintro i d' he
      rw [hc] at he
      exact congrArg Prod.fst (Option.some.inj he)
    · rw [withData_nodes hg.valid, hg.nodes]
      simp [hc]

theorem Within.update {lut' : Lut} (hw : Within keys lut) {key : List Char} (hkey : key ∈ keys)
    {c : Option (Nat × Nat)} (h : content lut' = Function.update (content lut) key c) :
    Within keys lut' := by
  intro key' hne
  by_cases hk : key' = key
  · exact hk ▸ hkey
  · rw [h, Function.update_of_ne hk] at hne
    exact hw key' hne

/-- What a run leaves: the id of each insertion stays the id of its key, and a
key has the data of its last insertion, or what it had before. -/
theorem runInserts_spec (ops : List Insertion) {lut : Lut} (hv : Valid lut) (hw : Within keys lut)
    (hfew : FewCollisions keys) (hops : ∀ op ∈ ops, op.key ∈ keys ∧ op.flags ∈ callerFlags) :
    ∃ lut' issued, runInserts lut ops = some (lut', issued) ∧ issued.length = ops.length ∧
      Valid lut' ∧ Within keys lut' ∧
      (∀ p ∈ ops.zip issued, (content lut' p.1.key).map Prod.fst = some p.2) ∧
      (∀ key i d, content lut key = some (i, d) → (content lut' key).map Prod.fst = some i) ∧
      ∀ key, (content lut' key).map Prod.snd =
        (latest ops key).or ((content lut key).map Prod.snd) := by
  induction ops generalizing lut with
  | nil => exact ⟨lut, [], rfl, rfl, hv, hw, by simp, by simp_all, by simp [latest]⟩
  | cons op ops ih =>
    obtain ⟨hkey, hflags⟩ := hops op (by simp)
    obtain ⟨mid, hins, hi⟩ := lutInsert_spec hv op
      (fun hc => (Nat.lt_succ_self _).trans (absent_room hv hw hfew hkey hc)) hflags
    have hcm := hi.content_eq
    obtain ⟨lut', issued, hrun, hlen, hv', hw', hzip, hids, hdata⟩ :=
      ih hi.valid (hw.update hkey hcm) (fun x hx => hops x (by simp [hx]))
    have hop : (content lut' op.key).map Prod.fst = some (lutGetId lut op.key).1 :=
      hids op.key _ op.data (by rw [hcm, Function.update_self])
    refine ⟨lut', (lutGetId lut op.key).1 :: issued, ?_, by simp [hlen], hv', hw', ?_, ?_, ?_⟩
    · simp [runInserts, hins, hrun]
    · intro p hp
      rw [List.zip_cons_cons, List.mem_cons] at hp
      rcases hp with rfl | hp
      · exact hop
      · exact hzip p hp
    · intro key i d hc
      by_cases hk : key = op.key
      · rw [hk] at hc ⊢
        rw [hop, hi.keeps i d hc]
      · exact hids key i d (by rw [hcm, Function.update_of_ne hk, hc])
    · intro key
      rw [hdata key, hcm]
      by_cases hk : key = op.key
      · rw [hk, Function.update_self]
        cases hf : ops.reverse.find? (·.key = op.key) <;>
          simp [latest, List.find?_append, hf]
      · rw [Function.update_of_ne hk]
        simp [latest, List.find?_append, Ne.symm hk]

/-- The table as a finite map, after any insertions into a fresh one. -/
theorem lut_refines_map {size : Nat} (hs : 0 < size) {ops : List Insertion}
    (hflags : ∀ op ∈ ops, op.flags ∈ callerFlags)
    (hfew : FewCollisions (ops.map Insertion.key)) :
    ∃ lut issued, runInserts (lutNew size) ops = some (lut, issued) ∧
      issued.length = ops.length ∧
      (∀ p ∈ ops.zip issued, ∀ q ∈ ops.zip issued, p.2 = q.2 ↔ p.1.key = q.1.key) ∧
      (∀ p ∈ ops.zip issued, lutGetId lut p.1.key = (p.2, lutFlagExists) ∧
        some (lutGet lut p.2) = latest ops p.1.key ∧ lutGetKey lut p.2 = some p.1.key) ∧
      ∀ key ∉ ops.map Insertion.key, ∃ id, lutGetId lut key = (id, lutFlagNotFound) ∧
        lutGet lut id = 0 ∧ lutGetKey lut id = none := by
  have hw : Within (ops.map Insertion.key) (lutNew size) :=
    fun key hne => absurd (lutNew_content size key) hne
  obtain ⟨lut, issued, hrun, hlen, hv, hwl, hzip, -, hdata⟩ :=
    runInserts_spec ops (lutNew_valid hs) hw hfew
      (fun op hop => ⟨List.mem_map_of_mem hop, hflags op hop⟩)
  have hpair : ∀ p ∈ ops.zip issued, ∃ d, content lut p.1.key = some (p.2, d) := by
    intro p hp
    obtain ⟨⟨i, d⟩, hc, rfl⟩ := Option.map_eq_some_iff.mp (hzip p hp)
    exact ⟨d, hc⟩
  refine ⟨lut, issued, hrun, hlen, ?_, ?_, ?_⟩
  · intro p hp q hq
    obtain ⟨d, hc⟩ := hpair p hp
    obtain ⟨d', hc'⟩ := hpair q hq
    constructor
    · intro he
      rw [he] at hc
      exact hv.content_inj hc hc'
    · intro he
      rw [he, hc'] at hc
      exact (congrArg Prod.fst (Option.some.inj hc)).symm
  · intro p hp
    obtain ⟨d, hc⟩ := hpair p hp
    obtain ⟨hid, hget, hgetKey⟩ := hv.found hc
    refine ⟨hid, ?_, hgetKey⟩
    have hd := hdata p.1.key
    rw [hc, lutNew_content, Option.map_none, Option.or_none] at hd
    rw [← hd, hget]
    rfl
  · intro key hkey
    have hnone : content lut key = none := by
      by_contra hne
      exact hkey (hwl key hne)
    obtain ⟨id, hid, -, hget, hgetKey⟩ := hv.absent hnone (absent_few hv hwl hfew key)
    exact ⟨id, hid, hget, hgetKey⟩

/-- Four insertions that let a table of one bucket grow twice. -/
def growing : List Insertion :=
  [⟨"a".toList, 1, lutFlagPython⟩, ⟨"b".toList, 2, lutFlagNone⟩, ⟨"a".toList, 3, lutFlagNone⟩,
    ⟨"c".toList, 4, lutFlagReference⟩]

theorem lut_refines_map_growing :
    ∃ lut issued, runInserts (lutNew 1) growing = some (lut, issued) ∧ issued.length = 4 ∧
      ∀ p ∈ growing.zip issued, some (lutGet lut p.2) = latest growing p.1.key := by
  have hfew : FewCollisions (growing.map Insertion.key) := .of_length (by decide)
  have hflags : ∀ op ∈ growing, op.flags ∈ callerFlags := by decide
  obtain ⟨lut, issued, hrun, hlen, -, hget, -⟩ := lut_refines_map Nat.one_pos hflags hfew
  exact ⟨lut, issued, hrun, hlen, fun p hp => (hget p hp).2.1⟩

end Lut

end AutoGentoo
