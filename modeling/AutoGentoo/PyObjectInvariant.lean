import AutoGentoo.PyObjects

/-! What holds of the objects in every state, and that it is kept where they are made, held,
let go and filled. -/

namespace AutoGentoo

open GuardedRun Ownership Relation

namespace PyRun

/-- The object without its count. -/
def valueAt (heap : Heap PyValue) (x : Nat) : Option PyValue := (heap.object x).map Object.value

variable {heap after : Heap PyValue} {held held' : Nat → Nat} {x y p e : Nat} {v w : PyValue}

theorem valueAt_some : valueAt heap x = some v ↔ ∃ count, heap.object x = some ⟨count, v⟩ := by
  rw [valueAt, Option.map_eq_some_iff]
  constructor
  · rintro ⟨⟨count, value⟩, hobject, rfl⟩
    exact ⟨count, hobject⟩
  · rintro ⟨count, hobject⟩
    exact ⟨_, hobject, rfl⟩

theorem owns_iff : Owns PyValue.owned heap y x ↔ ∃ v, valueAt heap y = some v ∧ x ∈ v.owned := by
  constructor
  · rintro ⟨object, hobject, hx⟩
    exact ⟨object.value, by rw [valueAt, hobject]; rfl, hx⟩
  · rintro ⟨v, hv, hx⟩
    obtain ⟨count, hobject⟩ := valueAt_some.mp hv
    exact ⟨_, hobject, hx⟩

theorem part_iff : Part heap x ↔ ∃ v, valueAt heap x = some v ∧ v.isPart = true := by
  constructor
  · rintro ⟨object, hobject, hpart⟩
    exact ⟨object.value, by rw [valueAt, hobject]; rfl, hpart⟩
  · rintro ⟨v, hv, hpart⟩
    obtain ⟨count, hobject⟩ := valueAt_some.mp hv
    exact ⟨_, hobject, hpart⟩

theorem valueAt_write {object : Object PyValue} (h : heap.object x = some object) (new : Object PyValue) (y : Nat) :
    valueAt (heap.write x (some new)) y = if y = x then some new.value else valueAt heap y := by
  rw [valueAt, object_write h]
  split_ifs <;> rfl

theorem mem_owned_ebuild {package older : Option Nat} {fields : EbuildField → Option Nat} :
    x ∈ (PyValue.ebuild package older fields).owned ↔ older = some x ∨ ∃ field, fields field = some x := by
  rw [PyValue.owned, List.reduceOption_mem_iff, List.mem_cons, List.mem_map]
  constructor
  · rintro (h | ⟨field, -, h⟩)
    · exact .inl h.symm
    · exact .inr ⟨field, h⟩
  · rintro (h | ⟨field, h⟩)
    · exact .inl h.symm
    · exact .inr ⟨field, by cases field <;> simp [EbuildField.all], h⟩

theorem mem_owned_package {ebuilds : Option Nat} : x ∈ (PyValue.package ebuilds).owned ↔ ebuilds = some x := by
  rw [PyValue.owned, List.reduceOption_mem_iff, List.mem_singleton, eq_comm]

/-- Links have the types the structures give them: packages have ebuilds of their own,
these are linked within their package, and all else is made of parts. -/
structure Shaped (heap : Heap PyValue) : Prop where
  head : ∀ p e, valueAt heap p = some (.package (some e)) →
    ∃ older fields, valueAt heap e = some (.ebuild (some p) older fields)
  older : ∀ e f package fields, valueAt heap e = some (.ebuild package (some f) fields) →
    ∃ p, package = some p ∧ ∃ older fields, valueAt heap f = some (.ebuild (some p) older fields)
  field : ∀ e package older fields field x, valueAt heap e = some (.ebuild package older fields) →
    fields field = some x → Part heap x
  part : ∀ y v x, valueAt heap y = some v → v.isPart = true → x ∈ v.owned → Part heap x
  package : ∀ e p older fields v, valueAt heap e = some (.ebuild (some p) older fields) →
    valueAt heap p = some v → ∃ ebuilds, v = .package ebuilds
  bound : ∀ e p older fields, valueAt heap e = some (.ebuild (some p) older fields) → p < heap.length

/-- The ebuilds of a package from one link on to another. -/
def Chain (heap : Heap PyValue) (p : Nat) : Option Nat → List Nat → Option Nat → Prop
  | current, [], next => current = next
  | current, e :: l, next => current = some e ∧
      ∃ older fields, valueAt heap e = some (.ebuild (some p) older fields) ∧ Chain heap p older l next

/-- What holds in every state. -/
structure Sound (heap : Heap PyValue) (held : Nat → Nat) : Prop where
  balanced : Balanced PyValue.owned heap held
  grounded : WellFounded (Owns PyValue.owned heap)
  shaped : Shaped heap
  chained : ∀ p ebuilds, valueAt heap p = some (.package ebuilds) → ∃ l, Chain heap p ebuilds l none ∧
    ∀ e older fields, valueAt heap e = some (.ebuild (some p) older fields) → e ∈ l

theorem Sound.owned_alive (h : Sound heap held) (hy : valueAt heap y = some v) (hx : x ∈ v.owned) :
    ∃ w, valueAt heap x = some w := by
  obtain ⟨object, hobject⟩ := h.balanced.owned_alive (owns_iff.mpr ⟨v, hy, hx⟩)
  exact ⟨object.value, by rw [valueAt, hobject]; rfl⟩

theorem valueAt_kept (h : Shrinks heap after) (hx : valueAt after x = some v) : valueAt heap x = some v := by
  obtain ⟨count, hobject⟩ := valueAt_some.mp hx
  obtain ⟨old, hold, hvalue⟩ := h.kept x _ hobject
  rw [valueAt, hold]
  exact congrArg some hvalue

/-- What is owned is kept with what owns it. -/
theorem owned_kept (h : Shrinks heap after) (hb : Balanced PyValue.owned after held')
    (hy : valueAt after y = some v) (hx : x ∈ v.owned) (hold : valueAt heap x = some w) :
    valueAt after x = some w := by
  obtain ⟨object, hobject⟩ := hb.owned_alive (owns_iff.mpr ⟨v, hy, hx⟩)
  have hvalue : valueAt after x = some object.value := by rw [valueAt, hobject]; rfl
  rw [hvalue, ← hold, valueAt_kept h hvalue]

theorem part_kept (h : Shrinks heap after) (hb : Balanced PyValue.owned after held')
    (hy : valueAt after y = some v) (hx : x ∈ v.owned) (hold : Part heap x) : Part after x := by
  obtain ⟨w, hw, hpart⟩ := part_iff.mp hold
  exact part_iff.mpr ⟨w, owned_kept h hb hy hx hw, hpart⟩

theorem chain_kept (h : Shrinks heap after) (hb : Balanced PyValue.owned after held') {l : List Nat}
    {current next : Option Nat} (hchain : Chain heap p current l next)
    (hcurrent : ∀ e ∈ current, ∃ v, valueAt after e = some v) : Chain after p current l next := by
  induction l generalizing current with
  | nil => exact hchain
  | cons e l ih =>
    obtain ⟨rfl, older, fields, he, hrest⟩ := hchain
    obtain ⟨v, hv⟩ := hcurrent e rfl
    have hafter : valueAt after e = some (.ebuild (some p) older fields) := by
      rw [hv, ← he, valueAt_kept h hv]
    refine ⟨rfl, older, fields, hafter, ih hrest fun f hf => ?_⟩
    obtain ⟨object, hobject⟩ := hb.owned_alive
      (owns_iff.mpr ⟨_, hafter, mem_owned_ebuild.mpr (.inl hf)⟩)
    exact ⟨object.value, by rw [valueAt, hobject]; rfl⟩

/-- Taking and releasing references. -/
theorem Sound.shrink (h : Sound heap held) (hs : Shrinks heap after) (hb : Balanced PyValue.owned after held') :
    Sound after held' := by
  refine ⟨hb, Subrelation.wf hs.owns h.grounded, ⟨fun p e hp => ?_, fun e f package fields he => ?_,
    fun e package older fields field x he hx => ?_, fun y v x hy hpart hx => ?_,
    fun e p older fields v he hp => ?_, fun e p older fields he => ?_⟩, fun p ebuilds hp => ?_⟩
  · obtain ⟨older, fields, he⟩ := h.shaped.head p e (valueAt_kept hs hp)
    exact ⟨older, fields, owned_kept hs hb hp (mem_owned_package.mpr rfl) he⟩
  · obtain ⟨p, hpackage, older, fields', hf⟩ := h.shaped.older e f package fields (valueAt_kept hs he)
    exact ⟨p, hpackage, older, fields', owned_kept hs hb he (mem_owned_ebuild.mpr (.inl rfl)) hf⟩
  · exact part_kept hs hb he (mem_owned_ebuild.mpr (.inr ⟨field, hx⟩))
      (h.shaped.field e package older fields field x (valueAt_kept hs he) hx)
  · exact part_kept hs hb hy hx (h.shaped.part y v x (valueAt_kept hs hy) hpart hx)
  · exact h.shaped.package e p older fields v (valueAt_kept hs he) (valueAt_kept hs hp)
  · rw [hs.length]
    exact h.shaped.bound e p older fields (valueAt_kept hs he)
  · obtain ⟨l, hchain, hall⟩ := h.chained p ebuilds (valueAt_kept hs hp)
    refine ⟨l, chain_kept hs hb hchain fun e he => ?_, fun e older fields he =>
      hall e older fields (valueAt_kept hs he)⟩
    obtain ⟨object, hobject⟩ := hb.owned_alive (owns_iff.mpr ⟨_, hp, mem_owned_package.mpr he⟩)
    exact ⟨object.value, by rw [valueAt, hobject]; rfl⟩

theorem Part.value (h : Part heap x) (hx : valueAt heap x = some v) : v.isPart = true := by
  obtain ⟨w, hw, hpart⟩ := part_iff.mp h
  exact Option.some.inj (hx.symm.trans hw) ▸ hpart

theorem not_part_ebuild {package older : Option Nat} {fields : EbuildField → Option Nat}
    (h : valueAt heap x = some (.ebuild package older fields)) : ¬ Part heap x := fun hpart =>
  absurd (hpart.value h) (by simp [PyValue.isPart])

theorem not_part_package {ebuilds : Option Nat} (h : valueAt heap x = some (.package ebuilds)) :
    ¬ Part heap x := fun hpart => absurd (hpart.value h) (by simp [PyValue.isPart])

/-- An ebuild is owned by its package or by one in the same package; else a part is owned. -/
theorem Shaped.owner_cases (h : Shaped heap) (hy : Owns PyValue.owned heap y x) :
    (valueAt heap y = some (.package (some x)) ∧
      ∃ older fields, valueAt heap x = some (.ebuild (some y) older fields)) ∨
    (∃ p fields, valueAt heap y = some (.ebuild (some p) (some x) fields) ∧
      ∃ older fields, valueAt heap x = some (.ebuild (some p) older fields)) ∨ Part heap x := by
  obtain ⟨v, hv, hx⟩ := owns_iff.mp hy
  cases v with
  | package ebuilds =>
    obtain rfl := mem_owned_package.mp hx
    exact .inl ⟨hv, h.head y x hv⟩
  | ebuild package older fields =>
    rcases mem_owned_ebuild.mp hx with rfl | ⟨field, hfield⟩
    · obtain ⟨p, rfl, hold⟩ := h.older y x package fields hv
      exact .inr (.inl ⟨p, fields, hv, hold⟩)
    · exact .inr (.inr (h.field y package older fields field x hv hfield))
  | dependency _ _ _ | requiredUse _ _ | atom _ _ | atomFlag _ | atomVersion _ | useFlag | dict =>
    exact .inr (.inr (h.part y _ x hv rfl hx))

theorem Shaped.package_unowned (h : Shaped heap) {ebuilds : Option Nat}
    (hp : valueAt heap p = some (.package ebuilds)) : ¬ Owns PyValue.owned heap y p := by
  intro hy
  rcases h.owner_cases hy with ⟨-, older, fields, he⟩ | ⟨q, fields, -, older, fields', he⟩ | hpart
  · exact absurd (hp.symm.trans he) (by simp)
  · exact absurd (hp.symm.trans he) (by simp)
  · exact not_part_package hp hpart

theorem Shaped.unplaced_unowned (h : Shaped heap) {older : Option Nat} {fields : EbuildField → Option Nat}
    (hx : valueAt heap x = some (.ebuild none older fields)) : ¬ Owns PyValue.owned heap y x := by
  intro hy
  rcases h.owner_cases hy with ⟨-, older, fields, he⟩ | ⟨q, fields, -, older, fields', he⟩ | hpart
  · exact absurd (hx.symm.trans he) (by simp)
  · exact absurd (hx.symm.trans he) (by simp)
  · exact not_part_ebuild hx hpart

theorem Shaped.part_reach (h : Shaped heap) (hx : Part heap x)
    (hpath : ReflTransGen (Owns PyValue.owned heap) x y) : Part heap y := by
  induction hpath with
  | refl => exact hx
  | tail _ hstep ih =>
    obtain ⟨v, hv, hmem⟩ := owns_iff.mp hstep
    exact h.part _ v _ hv (ih.value hv) hmem

theorem not_reach {r : Nat → Nat → Prop} (hnone : ∀ y, ¬ r y x) (hne : y ≠ x) : ¬ ReflTransGen r y x := by
  intro hpath
  rcases hpath.cases_tail with he | ⟨z, -, hz⟩
  · exact hne he.symm
  · exact hnone z hz

theorem chain_congr {l : List Nat} {current next : Option Nat} (h : Chain heap p current l next)
    (hsame : ∀ e ∈ l, ∀ older fields, valueAt heap e = some (.ebuild (some p) older fields) →
      ∃ fields', valueAt after e = some (.ebuild (some p) older fields')) : Chain after p current l next := by
  induction l generalizing current with
  | nil => exact h
  | cons e l ih =>
    obtain ⟨rfl, older, fields, he, hrest⟩ := h
    obtain ⟨fields', he'⟩ := hsame e List.mem_cons_self older fields he
    exact ⟨rfl, older, fields', he', ih hrest fun f hf => hsame f (List.mem_cons_of_mem e hf)⟩

theorem valueAt_append (heap : Heap PyValue) (v : PyValue) (y : Nat) :
    valueAt (heap ++ [some ⟨1, v⟩] : Heap PyValue) y = if y = heap.length then some v else valueAt heap y := by
  rw [valueAt, object_append]
  split_ifs <;> rfl

theorem valueAt_lt (h : valueAt heap x = some v) : x < heap.length := by
  obtain ⟨count, hobject⟩ := valueAt_some.mp h
  exact (List.getElem?_eq_some_iff.mp (object_lt hobject)).1

theorem build_sound (h : Sound heap held) (v : PyValue) (hheld : ∀ x, v.owned.count x ≤ held x)
    (hfresh : Fresh heap v) : Sound (heap ++ [some ⟨1, v⟩] : Heap PyValue)
      fun x => held x - v.owned.count x + [heap.length].count x := by
  have hold : ∀ {y w}, valueAt heap y = some w → valueAt (heap ++ [some ⟨1, v⟩] : Heap PyValue) y = some w := by
    intro y w hy
    rw [valueAt_append, if_neg (Nat.ne_of_lt (valueAt_lt hy)), hy]
  have hpart : ∀ {y}, Part heap y → Part (heap ++ [some ⟨1, v⟩] : Heap PyValue) y := by
    intro y hy
    obtain ⟨w, hw, hpart⟩ := part_iff.mp hy
    exact part_iff.mpr ⟨w, hold hw, hpart⟩
  have hdead : heap.object heap.length = none := by
    rw [Heap.object, List.getElem?_eq_none (Nat.le_refl _)]
    rfl
  have hnone := h.balanced.dead _ hdead
  refine ⟨h.balanced.build v hheld, ?_, ⟨fun p e hp => ?_, fun e f package fields he => ?_,
    fun e package older fields field x he hx => ?_, fun y w x hy hw hx => ?_,
    fun e p older fields w he hp => ?_, fun e p older fields he => ?_⟩, fun p ebuilds hp => ?_⟩
  · refine wellFounded_edges h.grounded heap.length (fun q => q ∈ v.owned)
      (fun q hq => not_reach (fun y hy => ?_) ?_) fun a b hab => ?_
    · have howners := owners_pos.mpr ⟨y, hy⟩
      omega
    · rintro rfl
      have hle := hheld heap.length
      have hpos := List.count_pos_iff.mpr hq
      omega
    · obtain ⟨w, hw, hmem⟩ := owns_iff.mp hab
      rw [valueAt_append] at hw
      split_ifs at hw with hy
      · exact .inr ⟨hy, Option.some.inj hw ▸ hmem⟩
      · exact .inl (owns_iff.mpr ⟨w, hw, hmem⟩)
  · rw [valueAt_append] at hp
    split_ifs at hp
    · obtain rfl := Option.some.inj hp
      exact absurd hfresh (by simp [Fresh])
    · obtain ⟨older, fields, he⟩ := h.shaped.head p e hp
      exact ⟨older, fields, hold he⟩
  · rw [valueAt_append] at he
    split_ifs at he
    · obtain rfl := Option.some.inj he
      exact absurd hfresh.2.1 (by simp)
    · obtain ⟨p, hpackage, older, fields', hf⟩ := h.shaped.older e f package fields he
      exact ⟨p, hpackage, older, fields', hold hf⟩
  · rw [valueAt_append] at he
    split_ifs at he
    · obtain rfl := Option.some.inj he
      exact hpart (hfresh.2.2 field x hx)
    · exact hpart (h.shaped.field e package older fields field x he hx)
  · rw [valueAt_append] at hy
    split_ifs at hy
    · obtain rfl := Option.some.inj hy
      refine hpart ?_
      cases v with
      | package _ | ebuild _ _ _ => exact absurd hw (by simp [PyValue.isPart])
      | dependency _ _ _ | requiredUse _ _ | atom _ _ | atomFlag _ | atomVersion _ | useFlag | dict =>
        exact hfresh x hx
    · exact hpart (h.shaped.part y w x hy hw hx)
  · rw [valueAt_append] at he hp
    split_ifs at he
    · obtain rfl := Option.some.inj he
      exact absurd hfresh.1 (by simp)
    · rw [if_neg (Nat.ne_of_lt (h.shaped.bound e p older fields he))] at hp
      exact h.shaped.package e p older fields w he hp
  · rw [valueAt_append] at he
    split_ifs at he
    · obtain rfl := Option.some.inj he
      exact absurd hfresh.1 (by simp)
    · rw [List.length_append]
      exact Nat.lt_add_right _ (h.shaped.bound e p older fields he)
  · rw [valueAt_append] at hp
    split_ifs at hp with hpn
    · obtain rfl := Option.some.inj hp
      refine ⟨[], hfresh, fun e older fields he => ?_⟩
      rw [valueAt_append] at he
      split_ifs at he
      · exact absurd he (by simp)
      · exact absurd hpn (Nat.ne_of_lt (h.shaped.bound e p older fields he))
    · obtain ⟨l, hchain, hall⟩ := h.chained p ebuilds hp
      refine ⟨l, chain_congr hchain fun e _ older fields he => ⟨fields, hold he⟩, fun e older fields he => ?_⟩
      rw [valueAt_append] at he
      split_ifs at he
      · obtain rfl := Option.some.inj he
        exact absurd hfresh.1 (by simp)
      · exact hall e older fields he

theorem count_reduceOption (l : List (Option Nat)) (y : Nat) : l.reduceOption.count y = l.count (some y) := by
  induction l with
  | nil => rfl
  | cons o l ih =>
    cases o with
    | none => rw [List.reduceOption_cons_of_none, ih, List.count_cons_of_ne (by simp)]
    | some z => rw [List.reduceOption_cons_of_some, List.count_cons, List.count_cons, ih]; simp

theorem count_update {fields : EbuildField → Option Nat} {field : EbuildField} (hnone : fields field = none)
    (package older : Option Nat) (x y : Nat) :
    (PyValue.ebuild package older (Function.update fields field (some x))).owned.count y =
      (PyValue.ebuild package older fields).owned.count y + [x].count y := by
  simp only [PyValue.owned, count_reduceOption, EbuildField.all, List.map_cons, List.map_nil, List.count_cons,
    List.count_nil]
  cases field <;> simp [Function.update, hnone] <;> omega

theorem assign_sound (h : Sound heap held) {count : Nat} {package older : Option Nat}
    {fields : EbuildField → Option Nat} {field : EbuildField}
    (he : heap.object e = some ⟨count, .ebuild package older fields⟩) (hnone : fields field = none)
    (hx : Part heap x) (hheld : 0 < held x) :
    Sound (heap.write e (some ⟨count, .ebuild package older (Function.update fields field (some x))⟩))
      fun y => held y - [x].count y := by
  have hvalue : valueAt heap e = some (.ebuild package older fields) := valueAt_some.mpr ⟨count, he⟩
  have hwrite := valueAt_write he ⟨count, .ebuild package older (Function.update fields field (some x))⟩
  have hne : x ≠ e := fun hxe => not_part_ebuild hvalue (hxe ▸ hx)
  generalize hafter :
    heap.write e (some ⟨count, .ebuild package older (Function.update fields field (some x))⟩) = after at hwrite ⊢
  have hpart : ∀ {y}, Part heap y → Part after y := by
    intro y hy
    obtain ⟨w, hw, hisPart⟩ := part_iff.mp hy
    have hye : y ≠ e := fun hye => not_part_ebuild hvalue (hye ▸ hy)
    exact part_iff.mpr ⟨w, by rw [hwrite, if_neg hye, hw], hisPart⟩
  have hforth : ∀ {f package older fields}, valueAt heap f = some (.ebuild package older fields) →
      ∃ fields', valueAt after f = some (.ebuild package older fields') := by
    intro f package' older' fields' hf
    rw [hwrite]
    split_ifs with hfe
    · rw [hfe, hvalue] at hf
      obtain ⟨rfl, rfl, -⟩ := PyValue.ebuild.inj (Option.some.inj hf)
      exact ⟨_, rfl⟩
    · exact ⟨fields', hf⟩
  have hback : ∀ {f package older fields}, valueAt after f = some (.ebuild package older fields) →
      ∃ fields', valueAt heap f = some (.ebuild package older fields') := by
    intro f package' older' fields' hf
    rw [hwrite] at hf
    split_ifs at hf with hfe
    · obtain ⟨rfl, rfl, -⟩ := PyValue.ebuild.inj (Option.some.inj hf)
      exact ⟨fields, hfe ▸ hvalue⟩
    · exact ⟨fields', hf⟩
  have hother : ∀ {y v}, valueAt after y = some v → (∀ package older fields, v ≠ .ebuild package older fields) →
      valueAt heap y = some v := by
    intro y v hy hv
    rw [hwrite] at hy
    split_ifs at hy
    · exact absurd (Option.some.inj hy).symm (hv _ _ _)
    · exact hy
  refine ⟨?_, ?_, ⟨fun p f hp => ?_, fun f g package' fields' hf => ?_,
    fun f package' older' fields' field' z hf hz => ?_, fun y w z hy hw hz => ?_,
    fun f p older' fields' w hf hp => ?_, fun f p older' fields' hf => ?_⟩, fun p ebuilds hp => ?_⟩
  · rw [← hafter]
    have hpos : 0 < count := h.balanced.positive e _ he
    have hcount := count_update hnone package older x
    refine h.balanced.rewrite he hpos (fun y _ => ?_) ?_
    · have hy := hcount y
      have hle : [x].count y ≤ held y := by
        by_cases hyx : x = y
        · rw [← hyx, List.count_singleton_self]
          exact hheld
        · rw [List.count_singleton, if_neg (by simpa using hyx)]
          exact Nat.zero_le _
      dsimp only
      omega
    · have hy := hcount e
      have hzero : [x].count e = 0 := by rw [List.count_singleton, if_neg (by simpa using hne)]
      dsimp only
      omega
  · refine wellFounded_edges h.grounded e (fun q => q = x) ?_ fun a b hab => ?_
    · rintro q rfl hpath
      exact not_part_ebuild hvalue (h.shaped.part_reach hx hpath)
    · obtain ⟨w, hw, hmem⟩ := owns_iff.mp hab
      rw [hwrite] at hw
      split_ifs at hw with hae
      · obtain rfl := Option.some.inj hw
        rcases mem_owned_ebuild.mp hmem with hold | ⟨field', hfield⟩
        · exact .inl (owns_iff.mpr ⟨_, hae ▸ hvalue, mem_owned_ebuild.mpr (.inl hold)⟩)
        · by_cases hsame : field' = field
          · rw [hsame, Function.update_self] at hfield
            exact .inr ⟨hae, (Option.some.inj hfield).symm⟩
          · rw [Function.update_of_ne hsame] at hfield
            exact .inl (owns_iff.mpr ⟨_, hae ▸ hvalue, mem_owned_ebuild.mpr (.inr ⟨field', hfield⟩)⟩)
      · exact .inl (owns_iff.mpr ⟨w, hw, hmem⟩)
  · obtain ⟨older', fields', hf⟩ := h.shaped.head p f (hother hp (by simp))
    exact ⟨older', hforth hf⟩
  · obtain ⟨fields'', hf'⟩ := hback hf
    obtain ⟨p, hpackage, older', fields₂, hg⟩ := h.shaped.older f g package' fields'' hf'
    exact ⟨p, hpackage, older', hforth hg⟩
  · rw [hwrite] at hf
    split_ifs at hf with hfe
    · obtain ⟨-, -, rfl⟩ := PyValue.ebuild.inj (Option.some.inj hf)
      by_cases hsame : field' = field
      · rw [hsame, Function.update_self] at hz
        exact hpart (Option.some.inj hz ▸ hx)
      · rw [Function.update_of_ne hsame] at hz
        exact hpart (h.shaped.field e package older fields field' z hvalue hz)
    · exact hpart (h.shaped.field f package' older' fields' field' z hf hz)
  · refine hpart (h.shaped.part y w z (hother hy ?_) hw hz)
    rintro package' older' fields' rfl
    exact absurd hw (by simp [PyValue.isPart])
  · obtain ⟨fields'', hf'⟩ := hback hf
    rw [hwrite] at hp
    split_ifs at hp with hpe
    · obtain ⟨ebuilds, heq⟩ := h.shaped.package f p older' fields'' _ hf' (hpe ▸ hvalue)
      exact absurd heq (by simp)
    · exact h.shaped.package f p older' fields'' w hf' hp
  · obtain ⟨fields'', hf'⟩ := hback hf
    have hlength : after.length = heap.length := hafter ▸ List.length_set ..
    rw [hlength]
    exact h.shaped.bound f p older' fields'' hf'
  · obtain ⟨l, hchain, hall⟩ := h.chained p ebuilds (hother hp (by simp))
    refine ⟨l, chain_congr hchain fun f _ older' fields' hf => hforth hf, fun f older' fields' hf => ?_⟩
    obtain ⟨fields'', hf'⟩ := hback hf
    exact hall f older' fields'' hf'

end PyRun

end AutoGentoo
