import AutoGentoo.PyObjectInvariant
import Mathlib.Data.List.Perm.Subperm

/-! The ebuilds of a package as a chain without a cycle, and what `add_ebuild` makes of it. -/

namespace AutoGentoo

open Ownership Relation

namespace PyRun

variable {heap after : Heap PyValue} {held : Nat → Nat} {y p e f q : Nat} {current next : Option Nat}
  {l : List Nat}

theorem chain_append {l₁ l₂ : List Nat} : Chain heap p current (l₁ ++ l₂) next ↔
    ∃ mid, Chain heap p current l₁ mid ∧ Chain heap p mid l₂ next := by
  induction l₁ generalizing current with
  | nil => exact ⟨fun h => ⟨current, rfl, h⟩, by rintro ⟨_, rfl, h⟩; exact h⟩
  | cons e l ih =>
    constructor
    · rintro ⟨rfl, older, fields, he, hrest⟩
      obtain ⟨mid, h₁, h₂⟩ := ih.mp hrest
      exact ⟨mid, ⟨rfl, older, fields, he, h₁⟩, h₂⟩
    · rintro ⟨mid, ⟨rfl, older, fields, he, h₁⟩, h₂⟩
      exact ⟨rfl, older, fields, he, ih.mpr ⟨mid, h₁, h₂⟩⟩

theorem chain_value (h : Chain heap p current l next) (he : e ∈ l) :
    ∃ older fields, valueAt heap e = some (.ebuild (some p) older fields) := by
  induction l generalizing current with
  | nil => exact absurd he List.not_mem_nil
  | cons f l ih =>
    obtain ⟨-, older, fields, hf, hrest⟩ := h
    rcases List.mem_cons.mp he with rfl | he
    · exact ⟨older, fields, hf⟩
    · exact ih hrest he

theorem chain_below (h : Chain heap p current l next)
    (hy : ∀ e ∈ current, TransGen (Owns PyValue.owned heap) y e) :
    (∀ e ∈ l, TransGen (Owns PyValue.owned heap) y e) ∧ ∀ e ∈ next, TransGen (Owns PyValue.owned heap) y e := by
  induction l generalizing current with
  | nil =>
    obtain rfl := h
    exact ⟨fun e he => absurd he List.not_mem_nil, hy⟩
  | cons f l ih =>
    obtain ⟨rfl, older, fields, hf, hrest⟩ := h
    have hyf := hy f rfl
    obtain ⟨hl, hnext⟩ := ih hrest fun e he =>
      hyf.tail (owns_iff.mpr ⟨_, hf, mem_owned_ebuild.mpr (.inl he)⟩)
    exact ⟨fun e he => (List.mem_cons.mp he).elim (fun hef => hef ▸ hyf) (hl e), hnext⟩

/-- The first of a chain leads to the others. -/
theorem chain_first (h : Chain heap p current (f :: l) next) :
    (∀ e ∈ l, TransGen (Owns PyValue.owned heap) f e) ∧ ∀ e ∈ next, TransGen (Owns PyValue.owned heap) f e := by
  obtain ⟨-, older, fields, hf, hrest⟩ := h
  exact chain_below hrest fun e he => .single (owns_iff.mpr ⟨_, hf, mem_owned_ebuild.mpr (.inl he)⟩)

theorem no_cycle {r : Nat → Nat → Prop} (hr : WellFounded r) (x : Nat) : ¬ TransGen r x x := by
  intro hx
  induction x using hr.transGen.induction with
  | _ x ih => exact ih x hx hx

theorem chain_nodup (hwf : WellFounded (Owns PyValue.owned heap)) (h : Chain heap p current l next) :
    l.Nodup ∧ ∀ e ∈ next, e ∉ l := by
  induction l generalizing current with
  | nil => exact ⟨List.nodup_nil, fun e _ => List.not_mem_nil⟩
  | cons f l ih =>
    obtain ⟨hl, hnext⟩ := chain_first h
    obtain ⟨-, older, fields, hf, hrest⟩ := h
    obtain ⟨hnodup, hout⟩ := ih hrest
    refine ⟨List.nodup_cons.mpr ⟨fun hmem => no_cycle hwf f (hl f hmem), hnodup⟩, fun e he hmem => ?_⟩
    rcases List.mem_cons.mp hmem with rfl | hmem
    · exact no_cycle hwf e (hnext e he)
    · exact hout e he hmem

theorem chain_length (hwf : WellFounded (Owns PyValue.owned heap)) (h : Chain heap p current l next) :
    l.length ≤ heap.length := by
  have hsub : l ⊆ List.range heap.length := fun e he => by
    obtain ⟨older, fields, hvalue⟩ := chain_value h he
    exact List.mem_range.mpr (valueAt_lt hvalue)
  simpa using ((chain_nodup hwf h).1.subperm hsub).length_le

theorem walk_spec (newer : Nat → Nat → Bool) (h : Chain heap p current l none) (hmem : e ∉ l) {fuel : Nat}
    (hfuel : l.length < fuel) (last : Option Nat) :
    ∃ l₁ l₂ next, l = l₁ ++ l₂ ∧ walk newer heap e fuel last current = some (some (l₁.getLast?.or last, next)) ∧
      Chain heap p current l₁ next ∧ Chain heap p next l₂ none := by
  induction l generalizing fuel current last with
  | nil =>
    obtain rfl := h
    cases fuel with
    | zero => exact absurd hfuel (Nat.not_lt_zero _)
    | succ fuel => exact ⟨[], [], none, rfl, rfl, rfl, rfl⟩
  | cons f l ih =>
    have hne : e ≠ f := fun hef => hmem (hef ▸ List.mem_cons_self)
    obtain ⟨rfl, older, fields, hf, hrest⟩ := h
    obtain ⟨count, hobject⟩ := valueAt_some.mp hf
    cases fuel with
    | zero => exact absurd hfuel (Nat.not_lt_zero _)
    | succ fuel =>
      rw [walk, if_neg hne, hobject]
      dsimp only
      by_cases hnewer : newer e f = true
      · exact ⟨[], f :: l, some f, rfl, by rw [if_pos hnewer]; rfl, rfl, rfl, older, fields, hf, hrest⟩
      · obtain ⟨l₁, l₂, next, rfl, hwalk, h₁, h₂⟩ := ih hrest (fun he => hmem (List.mem_cons_of_mem f he))
          (Nat.lt_of_succ_lt_succ hfuel) (some f)
        refine ⟨f :: l₁, l₂, next, rfl, ?_, ⟨rfl, older, fields, hf, h₁⟩, h₂⟩
        rw [if_neg hnewer, hwalk, List.getLast?_cons]
        cases l₁.getLast? <;> rfl

theorem count_older (package older : Option Nat) (fields : EbuildField → Option Nat) (y : Nat) :
    (PyValue.ebuild package older fields).owned.count y =
      older.toList.count y + (PyValue.ebuild none none fields).owned.count y := by
  simp only [PyValue.owned, count_reduceOption, List.count_cons]
  cases older <;> simp [List.count_cons]
  omega

theorem count_package (ebuilds : Option Nat) (y : Nat) :
    (PyValue.package ebuilds).owned.count y = ebuilds.toList.count y := by
  simp only [PyValue.owned, count_reduceOption]
  cases ebuilds <;> simp [List.count_cons]

/-- An ebuild without a place, its place before `next`, and the object that is to link to
it, with its value until then and from then on. -/
structure Place (heap : Heap PyValue) (p e q : Nat) (next : Option Nat) (count countq : Nat)
    (fields : EbuildField → Option Nat) (old new : PyValue) : Prop where
  package : ∃ ebuilds, valueAt heap p = some (.package ebuilds)
  ebuild : heap.object e = some ⟨count, .ebuild none none fields⟩
  linking : heap.object q = some ⟨countq, old⟩
  link : (q = p ∧ old = .package next ∧ new = .package (some e)) ∨
    ∃ others, old = .ebuild (some p) next others ∧ new = .ebuild (some p) (some e) others

def put (heap : Heap PyValue) (p e q : Nat) (next : Option Nat) (count countq : Nat)
    (fields : EbuildField → Option Nat) (new : PyValue) : Heap PyValue :=
  (heap.write q (some ⟨countq, new⟩)).write e (some ⟨count + 1, .ebuild (some p) next fields⟩)

section

variable {count countq : Nat} {fields : EbuildField → Option Nat} {old new v : PyValue}

theorem Place.unplaced (h : Place heap p e q next count countq fields old new) :
    valueAt heap e = some (.ebuild none none fields) := valueAt_some.mpr ⟨count, h.ebuild⟩

theorem Place.linked (h : Place heap p e q next count countq fields old new) : valueAt heap q = some old :=
  valueAt_some.mpr ⟨countq, h.linking⟩

theorem Place.package_ne (h : Place heap p e q next count countq fields old new) : p ≠ e := by
  rintro rfl
  obtain ⟨ebuilds, hp⟩ := h.package
  exact absurd (hp.symm.trans h.unplaced) (by simp)

theorem Place.linking_ne (h : Place heap p e q next count countq fields old new) : q ≠ e := by
  rintro rfl
  have hold : old = .ebuild none none fields := Option.some.inj (h.linked.symm.trans h.unplaced)
  rcases h.link with ⟨-, rfl, -⟩ | ⟨others, rfl, -⟩
  · exact absurd hold (by simp)
  · exact absurd hold (by simp)

theorem Place.object_ebuild (h : Place heap p e q next count countq fields old new) :
    Heap.object (heap.write q (some ⟨countq, new⟩)) e = some ⟨count, .ebuild none none fields⟩ := by
  rw [object_write h.linking, if_neg h.linking_ne.symm, h.ebuild]

theorem Place.valueAt_put (h : Place heap p e q next count countq fields old new) (z : Nat) :
    valueAt (put heap p e q next count countq fields new) z =
      if z = e then some (.ebuild (some p) next fields) else if z = q then some new else valueAt heap z := by
  rw [put, valueAt_write h.object_ebuild, valueAt_write h.linking]

theorem Place.count_link (h : Place heap p e q next count countq fields old new) (y : Nat) :
    new.owned.count y + next.toList.count y = old.owned.count y + [e].count y := by
  rcases h.link with ⟨-, rfl, rfl⟩ | ⟨others, rfl, rfl⟩
  · rw [count_package, count_package, Option.toList_some]
    exact Nat.add_comm _ _
  · rw [count_older (some p) next, count_older (some p) (some e), Option.toList_some]
    omega

/-- The link to the next ebuild goes over to the new one, for which the reference that is
taken makes up. -/
theorem Place.balanced (h : Place heap p e q next count countq fields old new) (hs : Sound heap held)
    (hheld : 0 < held e) :
    Balanced PyValue.owned (put heap p e q next count countq fields new) held := by
  have hlink := h.count_link
  have hpos : 0 < countq := hs.balanced.positive q _ h.linking
  have hle : ∀ y, [e].count y ≤ held y := by
    intro y
    by_cases hye : e = y
    · rw [← hye, List.count_singleton_self]
      exact hheld
    · rw [List.count_singleton, if_neg (by simpa using hye)]
      exact Nat.zero_le _
  have hmid : Balanced PyValue.owned (heap.write q (some ⟨countq, new⟩))
      fun y => held y + next.toList.count y - [e].count y := by
    refine hs.balanced.rewrite h.linking hpos (fun y _ => ?_) ?_
    · have hy := hlink y
      have hy' := hle y
      dsimp only
      omega
    · have hq := hlink q
      have hq' := hle q
      dsimp only
      omega
  have howned := count_older (some p) next fields
  refine hmid.rewrite h.object_ebuild (Nat.succ_pos count) (fun y hy => ?_) ?_
  · have hyo := howned y
    have hzero : [e].count y = 0 := by rw [List.count_singleton, if_neg (by simpa using Ne.symm hy)]
    dsimp only
    omega
  · have heo := howned e
    have hone : [e].count e = 1 := List.count_singleton_self
    dsimp only
    omega

/-- Neither does the ebuild lead back to what links to it, nor the next one to the ebuild. -/
theorem Place.grounded (h : Place heap p e q next count countq fields old new) (hs : Sound heap held) :
    WellFounded (Owns PyValue.owned (put heap p e q next count countq fields new)) := by
  have hunowned : ∀ y, ¬ Owns PyValue.owned heap y e := fun y => hs.shaped.unplaced_unowned h.unplaced
  have hnext : ∀ n ∈ next, Owns PyValue.owned heap q n := by
    intro n hn
    rcases h.link with ⟨-, hold, -⟩ | ⟨others, hold, -⟩
    · exact owns_iff.mpr ⟨_, h.linked, hold ▸ mem_owned_package.mpr hn⟩
    · exact owns_iff.mpr ⟨_, h.linked, hold ▸ mem_owned_ebuild.mpr (.inl hn)⟩
  have hnot_part : ¬ Part heap q := by
    intro hpart
    have hold := hpart.value h.linked
    rcases h.link with ⟨-, rfl, -⟩ | ⟨others, rfl, -⟩
    · exact absurd hold (by simp [PyValue.isPart])
    · exact absurd hold (by simp [PyValue.isPart])
  let r : Nat → Nat → Prop := fun a b => Owns PyValue.owned heap a b ∨ (a = q ∧ b = e)
  have hr : WellFounded r := by
    refine wellFounded_edges hs.grounded q (fun z => z = e) ?_ fun a b hab => hab
    rintro z rfl hpath
    rcases hpath.cases_head with hzq | ⟨x, hx, hrest⟩
    · exact h.linking_ne hzq.symm
    · obtain ⟨v, hv, hmem⟩ := owns_iff.mp hx
      obtain rfl := Option.some.inj (h.unplaced.symm.trans hv)
      rcases mem_owned_ebuild.mp hmem with hnone | ⟨field, hfield⟩
      · exact absurd hnone (by simp)
      · exact hnot_part (hs.shaped.part_reach (hs.shaped.field _ _ _ _ field x h.unplaced hfield) hrest)
  refine wellFounded_edges hr e (fun z => z ∈ next) (fun n hn hpath => ?_) fun a b hab => ?_
  · rcases hpath.cases_tail with hne | ⟨x, hx, hxe | ⟨rfl, -⟩⟩
    · exact hunowned q (hne ▸ hnext n hn)
    · exact hunowned x hxe
    · exact no_cycle hr x (TransGen.head' (.inl (hnext n hn)) hx)
  · obtain ⟨v, hv, hmem⟩ := owns_iff.mp hab
    rw [h.valueAt_put] at hv
    split_ifs at hv with hae haq
    · obtain rfl := Option.some.inj hv
      rcases mem_owned_ebuild.mp hmem with holder | ⟨field, hfield⟩
      · exact .inr ⟨hae, holder⟩
      · exact .inl (.inl (owns_iff.mpr ⟨_, hae ▸ h.unplaced, mem_owned_ebuild.mpr (.inr ⟨field, hfield⟩)⟩))
    · obtain rfl := Option.some.inj hv
      rcases h.link with ⟨-, hold, rfl⟩ | ⟨others, hold, rfl⟩
      · exact .inl (.inr ⟨haq, (Option.some.inj (mem_owned_package.mp hmem)).symm⟩)
      · rcases mem_owned_ebuild.mp hmem with holder | ⟨field, hfield⟩
        · exact .inl (.inr ⟨haq, (Option.some.inj holder).symm⟩)
        · refine .inl (.inl (owns_iff.mpr ⟨old, haq ▸ h.linked, ?_⟩))
          exact hold ▸ mem_owned_ebuild.mpr (.inr ⟨field, hfield⟩)
    · exact .inl (.inl (owns_iff.mpr ⟨v, hv, hmem⟩))

/-- The ebuild and what links to it change; all else is as it was. -/
theorem Place.back (h : Place heap p e q next count countq fields old new) {package older : Option Nat}
    {others : EbuildField → Option Nat}
    (hf : valueAt (put heap p e q next count countq fields new) f = some (.ebuild package older others)) :
    (f = e ∧ package = some p ∧ older = next ∧ others = fields) ∨
      (f = q ∧ package = some p ∧ older = some e ∧ valueAt heap f = some (.ebuild (some p) next others)) ∨
      (f ≠ q ∧ valueAt heap f = some (.ebuild package older others)) := by
  rw [h.valueAt_put] at hf
  split_ifs at hf with hfe hfq
  · obtain ⟨rfl, rfl, rfl⟩ := PyValue.ebuild.inj (Option.some.inj hf)
    exact .inl ⟨hfe, rfl, rfl, rfl⟩
  · have hnew := Option.some.inj hf
    rcases h.link with ⟨-, -, rfl⟩ | ⟨others', hold, rfl⟩
    · exact absurd hnew (by simp)
    · obtain ⟨rfl, rfl, rfl⟩ := PyValue.ebuild.inj hnew
      exact .inr (.inl ⟨hfq, rfl, rfl, by rw [hfq, h.linked, hold]⟩)
  · exact .inr (.inr ⟨hfq, hf⟩)

theorem Place.placed_ne (h : Place heap p e q next count countq fields old new) {p' : Nat} {older : Option Nat}
    {others : EbuildField → Option Nat} (hf : valueAt heap f = some (.ebuild (some p') older others)) : f ≠ e := by
  rintro rfl
  exact absurd (hf.symm.trans h.unplaced) (by simp)

theorem Place.forth (h : Place heap p e q next count countq fields old new) {p' : Nat} {older : Option Nat}
    {others : EbuildField → Option Nat} (hf : valueAt heap f = some (.ebuild (some p') older others)) :
    ∃ older others,
      valueAt (put heap p e q next count countq fields new) f = some (.ebuild (some p') older others) := by
  rw [h.valueAt_put, if_neg (h.placed_ne hf)]
  split_ifs with hfq
  · have hold := Option.some.inj (h.linked.symm.trans (hfq ▸ hf))
    rcases h.link with ⟨-, rfl, -⟩ | ⟨others', rfl, rfl⟩
    · exact absurd hold (by simp)
    · obtain ⟨hp, -, -⟩ := PyValue.ebuild.inj hold
      exact ⟨some e, others', by rw [hp]⟩
  · exact ⟨older, others, hf⟩

theorem Place.next_placed (h : Place heap p e q next count countq fields old new) (hs : Sound heap held) {n : Nat}
    (hn : n ∈ next) : ∃ older others, valueAt heap n = some (.ebuild (some p) older others) := by
  obtain rfl : next = some n := hn
  rcases h.link with ⟨rfl, hold, -⟩ | ⟨others, hold, -⟩
  · exact hs.shaped.head _ n (hold ▸ h.linked)
  · obtain ⟨p', hp', hn⟩ := hs.shaped.older q n (some p) others (hold ▸ h.linked)
    obtain rfl := Option.some.inj hp'
    exact hn

theorem Place.part (h : Place heap p e q next count countq fields old new) (hx : Part heap x) :
    Part (put heap p e q next count countq fields new) x := by
  obtain ⟨w, hw, hpart⟩ := part_iff.mp hx
  have hxe : x ≠ e := fun hxe => not_part_ebuild h.unplaced (hxe ▸ hx)
  have hxq : x ≠ q := by
    rintro rfl
    obtain rfl := Option.some.inj (h.linked.symm.trans hw)
    rcases h.link with ⟨-, rfl, -⟩ | ⟨others, rfl, -⟩
    · exact absurd hpart (by simp [PyValue.isPart])
    · exact absurd hpart (by simp [PyValue.isPart])
  exact part_iff.mpr ⟨w, by rw [h.valueAt_put, if_neg hxe, if_neg hxq, hw], hpart⟩

theorem Place.package_put (h : Place heap p e q next count countq fields old new) {p' : Nat} (hp' : p' ≠ e)
    (hv : ∃ ebuilds, valueAt heap p' = some (.package ebuilds)) :
    ∃ ebuilds, valueAt (put heap p e q next count countq fields new) p' = some (.package ebuilds) := by
  obtain ⟨ebuilds, hv⟩ := hv
  rw [h.valueAt_put, if_neg hp']
  split_ifs with hpq
  · have hold := Option.some.inj (h.linked.symm.trans (hpq ▸ hv))
    rcases h.link with ⟨-, -, rfl⟩ | ⟨others, rfl, -⟩
    · exact ⟨some e, rfl⟩
    · exact absurd hold (by simp)
  · exact ⟨ebuilds, hv⟩

theorem Place.old_package (h : Place heap p e q next count countq fields old new) {p' : Nat} {ebuilds : Option Nat}
    (hv : valueAt (put heap p e q next count countq fields new) p' = some (.package ebuilds)) :
    (p' = p ∧ q = p ∧ ebuilds = some e) ∨ (p' ≠ q ∧ p' ≠ e ∧ valueAt heap p' = some (.package ebuilds)) := by
  rw [h.valueAt_put] at hv
  split_ifs at hv with hpe hpq
  · exact absurd (Option.some.inj hv) (by simp)
  · have hnew := Option.some.inj hv
    rcases h.link with ⟨hqp, -, rfl⟩ | ⟨others, -, rfl⟩
    · exact .inl ⟨hpq.trans hqp, hqp, (PyValue.package.inj hnew).symm⟩
    · exact absurd hnew (by simp)
  · exact .inr ⟨hpq, hpe, hv⟩

theorem Place.shaped (h : Place heap p e q next count countq fields old new) (hs : Sound heap held) :
    Shaped (put heap p e q next count countq fields new) := by
  have hself : valueAt (put heap p e q next count countq fields new) e = some (.ebuild (some p) next fields) := by
    rw [h.valueAt_put, if_pos rfl]
  have hlength : (put heap p e q next count countq fields new).length = heap.length := by
    rw [put, Heap.write, Heap.write, List.length_set, List.length_set]
  refine ⟨fun p' f hp' => ?_, fun f g package others hf => ?_,
    fun f package older others field x hf hx => ?_, fun y v x hy hv hx => ?_,
    fun f p' older others v hf hp' => ?_, fun f p' older others hf => ?_⟩
  · rcases h.old_package hp' with ⟨rfl, -, hfe⟩ | ⟨-, -, hold⟩
    · obtain rfl := Option.some.inj hfe
      exact ⟨next, fields, hself⟩
    · obtain ⟨older, others, hf⟩ := hs.shaped.head p' f hold
      exact h.forth hf
  · rcases h.back hf with ⟨-, rfl, hnext, -⟩ | ⟨-, rfl, hge, -⟩ | ⟨-, hold⟩
    · obtain ⟨older, others', hg⟩ := h.next_placed hs hnext.symm
      exact ⟨p, rfl, h.forth hg⟩
    · obtain rfl := Option.some.inj hge
      exact ⟨p, rfl, next, fields, hself⟩
    · obtain ⟨p', hp', older, others', hg⟩ := hs.shaped.older f g package others hold
      exact ⟨p', hp', h.forth hg⟩
  · rcases h.back hf with ⟨rfl, -, -, rfl⟩ | ⟨-, -, -, hold⟩ | ⟨-, hold⟩
    · exact h.part (hs.shaped.field f _ _ _ field x h.unplaced hx)
    · exact h.part (hs.shaped.field f _ _ _ field x hold hx)
    · exact h.part (hs.shaped.field f _ _ _ field x hold hx)
  · rw [h.valueAt_put] at hy
    split_ifs at hy
    · exact absurd (Option.some.inj hy ▸ hv) (by simp [PyValue.isPart])
    · have hnew := Option.some.inj hy
      rcases h.link with ⟨-, -, rfl⟩ | ⟨others, -, rfl⟩
      · exact absurd (hnew ▸ hv) (by simp [PyValue.isPart])
      · exact absurd (hnew ▸ hv) (by simp [PyValue.isPart])
    · exact h.part (hs.shaped.part y v x hy hv hx)
  · have hpackage : p' ≠ e ∧ ∃ ebuilds, valueAt heap p' = some (.package ebuilds) := by
      rcases h.back hf with ⟨-, hpp, -, -⟩ | ⟨-, hpp, -, -⟩ | ⟨-, hold⟩
      · exact Option.some.inj hpp ▸ ⟨h.package_ne, h.package⟩
      · exact Option.some.inj hpp ▸ ⟨h.package_ne, h.package⟩
      · have hne : p' ≠ e := by
          rintro rfl
          obtain ⟨ebuilds, hv⟩ := hs.shaped.package f p' older others _ hold h.unplaced
          exact absurd hv (by simp)
        rw [h.valueAt_put, if_neg hne] at hp'
        split_ifs at hp' with hpq
        · obtain ⟨ebuilds, hv⟩ := hs.shaped.package f p' older others old hold (hpq ▸ h.linked)
          exact ⟨hne, ebuilds, hv ▸ hpq ▸ h.linked⟩
        · obtain ⟨ebuilds, rfl⟩ := hs.shaped.package f p' older others v hold hp'
          exact ⟨hne, ebuilds, hp'⟩
    obtain ⟨ebuilds, hv⟩ := h.package_put hpackage.1 hpackage.2
    exact ⟨ebuilds, Option.some.inj (hp'.symm.trans hv)⟩
  · rw [hlength]
    rcases h.back hf with ⟨-, hp', -, -⟩ | ⟨-, hp', -, -⟩ | ⟨-, hold⟩
    · obtain ⟨ebuilds, hp⟩ := h.package
      exact Option.some.inj hp' ▸ valueAt_lt hp
    · obtain ⟨ebuilds, hp⟩ := h.package
      exact Option.some.inj hp' ▸ valueAt_lt hp
    · exact hs.shaped.bound f p' older others hold

/-- The chains of the other packages are as they were. -/
theorem Place.chained (h : Place heap p e q next count countq fields old new) (hs : Sound heap held)
    (hchain : ∀ ebuilds, valueAt (put heap p e q next count countq fields new) p = some (.package ebuilds) →
      ∃ l, Chain (put heap p e q next count countq fields new) p ebuilds l none ∧
        e ∈ l ∧ ∀ f older others, valueAt heap f = some (.ebuild (some p) older others) → f ∈ l)
    (p' : Nat) (ebuilds : Option Nat)
    (hp' : valueAt (put heap p e q next count countq fields new) p' = some (.package ebuilds)) :
    ∃ l, Chain (put heap p e q next count countq fields new) p' ebuilds l none ∧
      ∀ f older others, valueAt (put heap p e q next count countq fields new) f =
        some (.ebuild (some p') older others) → f ∈ l := by
  by_cases hpp : p' = p
  · subst hpp
    obtain ⟨l, hl, hmem, hall⟩ := hchain ebuilds hp'
    refine ⟨l, hl, fun f older others hf => ?_⟩
    rcases h.back hf with ⟨rfl, -⟩ | ⟨-, -, -, hold⟩ | ⟨-, hold⟩
    · exact hmem
    · exact hall f _ _ hold
    · exact hall f _ _ hold
  · have hold : valueAt heap p' = some (.package ebuilds) := by
      rcases h.old_package hp' with ⟨heq, -⟩ | ⟨-, -, hold⟩
      · exact absurd heq hpp
      · exact hold
    obtain ⟨l, hl, hall⟩ := hs.chained p' ebuilds hold
    refine ⟨l, chain_congr hl fun f _ older others hf => ⟨others, ?_⟩, fun f older others hf => ?_⟩
    · have hfq : f ≠ q := by
        rintro rfl
        have hvalue := Option.some.inj (h.linked.symm.trans hf)
        rcases h.link with ⟨-, rfl, -⟩ | ⟨others, rfl, -⟩
        · exact absurd hvalue (by simp)
        · exact hpp (Option.some.inj (PyValue.ebuild.inj hvalue).1).symm
      rw [h.valueAt_put, if_neg (h.placed_ne hf), if_neg hfq, hf]
    · rcases h.back hf with ⟨-, heq, -⟩ | ⟨-, heq, -⟩ | ⟨-, hold⟩
      · exact absurd (Option.some.inj heq) hpp
      · exact absurd (Option.some.inj heq) hpp
      · exact hall f older others hold

/-- The ebuild stands in the chain where the walk has stopped. -/
theorem Place.chain_put (h : Place heap p e q next count countq fields old new) (hs : Sound heap held)
    {ebuilds : Option Nat} {l₁ l₂ : List Nat} (hp : valueAt heap p = some (.package ebuilds))
    (h₁ : Chain heap p ebuilds l₁ next) (h₂ : Chain heap p next l₂ none) (hq : q = l₁.getLast?.getD p)
    {ebuilds' : Option Nat}
    (hp' : valueAt (put heap p e q next count countq fields new) p = some (.package ebuilds')) :
    Chain (put heap p e q next count countq fields new) p ebuilds' (l₁ ++ e :: l₂) none := by
  have hsame : ∀ {f older others}, f ≠ q → valueAt heap f = some (.ebuild (some p) older others) →
      valueAt (put heap p e q next count countq fields new) f = some (.ebuild (some p) older others) := by
    intro f older others hfq hf
    rw [h.valueAt_put, if_neg (h.placed_ne hf), if_neg hfq, hf]
  have hself : valueAt (put heap p e q next count countq fields new) e = some (.ebuild (some p) next fields) := by
    rw [h.valueAt_put, if_pos rfl]
  have hnodup := (chain_nodup hs.grounded (chain_append.mpr ⟨next, h₁, h₂⟩)).1
  rcases List.eq_nil_or_concat l₁ with rfl | ⟨l₀, d, rfl⟩
  · obtain rfl : ebuilds = next := h₁
    obtain rfl : q = p := hq
    have hne : ∀ f ∈ l₂, f ≠ q := by
      rintro f hf rfl
      obtain ⟨older, others, hvalue⟩ := chain_value h₂ hf
      exact absurd (hp.symm.trans hvalue) (by simp)
    have hhead : ebuilds' = some e := by
      rcases h.old_package hp' with ⟨-, -, hhead⟩ | ⟨hqq, -⟩
      · exact hhead
      · exact absurd rfl hqq
    exact ⟨hhead, ebuilds, fields, hself, chain_congr h₂ fun f hf older others hvalue =>
      ⟨others, hsame (hne f hf) hvalue⟩⟩
  · rw [List.concat_eq_append] at h₁ hq hnodup ⊢
    rw [List.getLast?_concat, Option.getD_some] at hq
    subst hq
    rw [List.append_assoc, List.singleton_append] at hnodup ⊢
    obtain ⟨mid, h₀, rfl, older, others, hd, holder⟩ := chain_append.mp h₁
    obtain rfl : older = next := holder
    obtain ⟨-, hrest, hdisjoint⟩ := List.nodup_append.mp hnodup
    have hd' : valueAt (put heap p e q older count countq fields new) q = some (.ebuild (some p) (some e) others) := by
      rcases h.link with ⟨rfl, -, -⟩ | ⟨others', hold, hnew⟩
      · exact absurd (hp.symm.trans hd) (by simp)
      · have hvalue := Option.some.inj (hd.symm.trans h.linked)
        rw [hold] at hvalue
        obtain ⟨-, -, rfl⟩ := PyValue.ebuild.inj hvalue
        rw [h.valueAt_put, if_neg h.linking_ne, if_pos rfl, hnew]
    have hebuilds : ebuilds' = ebuilds := by
      rcases h.old_package hp' with ⟨-, rfl, -⟩ | ⟨-, -, hold⟩
      · exact absurd (hp.symm.trans hd) (by simp)
      · exact PyValue.package.inj (Option.some.inj (hold.symm.trans hp))
    subst hebuilds
    refine chain_append.mpr ⟨some q, chain_congr h₀ fun f hf older others hvalue => ⟨others, hsame ?_ hvalue⟩,
      rfl, some e, others, hd', rfl, older, fields, hself,
      chain_congr h₂ fun f hf older others hvalue => ⟨others, hsame ?_ hvalue⟩⟩
    · exact hdisjoint f hf q List.mem_cons_self
    · rintro rfl
      exact (List.nodup_cons.mp hrest).1 hf

end

end PyRun

end AutoGentoo
