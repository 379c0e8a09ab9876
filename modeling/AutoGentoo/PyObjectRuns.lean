import AutoGentoo.EbuildLinks

/-! No run of the extension touches an object that has been freed, and none is kept that
cannot be reached; what is left of a package when it goes. -/

namespace AutoGentoo

open GuardedRun Ownership Relation

namespace PyRun

variable {heap after : Heap PyValue} {held : Nat → Nat} {x p e : Nat} {newer : Nat → Nat → Bool}

theorem chain_last {current next : Option Nat} {l : List Nat} {d : Nat} (h : Chain heap p current l next)
    (hd : l.getLast? = some d) : ∃ others, valueAt heap d = some (.ebuild (some p) next others) := by
  obtain ⟨l, rfl⟩ := List.getLast?_eq_some_iff.mp hd
  obtain ⟨mid, -, rfl, older, others, hvalue, rfl⟩ := chain_append.mp h
  exact ⟨others, hvalue⟩

/-- Where the walk has stopped there is a link to turn. -/
theorem exists_place {count : Nat} {ebuilds next : Option Nat} {fields : EbuildField → Option Nat} {l : List Nat}
    (hp : valueAt heap p = some (.package ebuilds)) (he : heap.object e = some ⟨count, .ebuild none none fields⟩)
    (h : Chain heap p ebuilds l next) :
    ∃ countq old new, Place heap p e (l.getLast?.getD p) next count countq fields old new ∧
      linkFrom heap p e l.getLast? = some (heap.write (l.getLast?.getD p) (some ⟨countq, new⟩)) := by
  cases hlast : l.getLast? with
  | none =>
    obtain rfl := List.getLast?_eq_none_iff.mp hlast
    obtain rfl : ebuilds = next := h
    obtain ⟨countq, hobject⟩ := valueAt_some.mp hp
    exact ⟨countq, _, _, ⟨⟨ebuilds, hp⟩, he, hobject, .inl ⟨rfl, rfl, rfl⟩⟩, by rw [linkFrom, hobject]; rfl⟩
  | some d =>
    obtain ⟨others, hd⟩ := chain_last h hlast
    obtain ⟨countq, hobject⟩ := valueAt_some.mp hd
    exact ⟨countq, _, _, ⟨⟨ebuilds, hp⟩, he, hobject, .inr ⟨others, rfl, rfl⟩⟩, by rw [linkFrom, hobject]; rfl⟩

theorem addEbuild_sound (newer : Nat → Nat → Bool) (hs : Sound heap held) {count countp : Nat}
    {ebuilds package older : Option Nat} {fields : EbuildField → Option Nat}
    (hp : heap.object p = some ⟨countp, .package ebuilds⟩)
    (he : heap.object e = some ⟨count, .ebuild package older fields⟩) (hheld : 0 < held e) :
    ∃ after, addEbuild newer heap p e = some after ∧ Sound after held := by
  have hvalue : valueAt heap p = some (.package ebuilds) := valueAt_some.mpr ⟨countp, hp⟩
  cases package with
  | some p' => exact ⟨heap, by rw [addEbuild, hp, he]; rfl, hs⟩
  | none =>
    obtain rfl : older = none := by
      cases older with
      | none => rfl
      | some f =>
        obtain ⟨p', hp', -⟩ := hs.shaped.older e f none fields (valueAt_some.mpr ⟨count, he⟩)
        exact absurd hp' (by simp)
    obtain ⟨l, hchain, hall⟩ := hs.chained p ebuilds hvalue
    have hmem : e ∉ l := by
      intro hmem
      obtain ⟨older, others, hplaced⟩ := chain_value hchain hmem
      exact absurd (hplaced.symm.trans (valueAt_some.mpr ⟨count, he⟩)) (by simp)
    obtain ⟨l₁, l₂, next, rfl, hwalk, h₁, h₂⟩ := walk_spec newer hchain hmem
      (Nat.lt_succ_of_le (chain_length hs.grounded hchain)) none
    obtain ⟨countq, old, new, place, hfrom⟩ := exists_place hvalue he h₁
    refine ⟨put heap p e (l₁.getLast?.getD p) next count countq fields new, ?_,
      place.balanced hs hheld, place.grounded hs, place.shaped hs, place.chained hs fun ebuilds' hp' =>
        ⟨l₁ ++ e :: l₂, place.chain_put hs hvalue h₁ h₂ rfl hp', by simp, fun f older others hf => ?_⟩⟩
    · rw [addEbuild, hp, he]
      dsimp only
      rw [Option.isSome_none, if_neg Bool.false_ne_true, hwalk, Option.bind_some, Option.or_none]
      dsimp only
      rw [hfrom, Option.bind_some, linkTo, place.object_ebuild]
      rfl
    · have hf' := hall f older others hf
      rw [List.mem_append] at hf' ⊢
      exact hf'.imp_right (List.mem_cons_of_mem e)

theorem sound_empty : Sound empty.heap empty.held := by
  have hnone : ∀ x, Heap.object empty.heap x = none := fun x => rfl
  have hvalue : ∀ x, valueAt empty.heap x = none := fun x => rfl
  refine ⟨⟨fun x object hx => absurd ((hnone x).symm.trans hx) (by simp),
    fun x object hx => absurd ((hnone x).symm.trans hx) (by simp), fun x _ => rfl⟩,
    ⟨fun x => ⟨x, fun y hy => ?_⟩⟩, ⟨fun p e hp => absurd ((hvalue p).symm.trans hp) (by simp),
    fun e f package fields he => absurd ((hvalue e).symm.trans he) (by simp),
    fun e package older fields field x he => absurd ((hvalue e).symm.trans he) (by simp),
    fun y v x hy => absurd ((hvalue y).symm.trans hy) (by simp),
    fun e p older fields v he => absurd ((hvalue e).symm.trans he) (by simp),
    fun e p older fields he => absurd ((hvalue e).symm.trans he) (by simp)⟩,
    fun p ebuilds hp => absurd ((hvalue p).symm.trans hp) (by simp)⟩
  obtain ⟨object, hobject, -⟩ := hy
  exact absurd ((hnone y).symm.trans hobject) (by simp)

theorem incref_sound (hs : Sound heap held) (hx : (heap.object x).isSome = true) :
    ∃ after, incref heap x = some after ∧ Sound after fun y => held y + [x].count y := by
  obtain ⟨object, hobject⟩ := Option.isSome_iff_exists.mp hx
  obtain ⟨after, hafter, hshrinks, hbalanced⟩ := incref_spec hs.balanced hobject
  exact ⟨after, hafter, hs.shrink hshrinks hbalanced⟩

theorem decref_sound (hs : Sound heap held) (hx : 0 < held x) :
    ∃ after, decref PyValue.owned heap.live heap x = some after ∧ Shrinks heap after ∧
      Sound after fun y => held y - [x].count y := by
  have hsplit : Balanced PyValue.owned heap fun y => (held y - [x].count y) + [x].count y := by
    convert hs.balanced using 2 with y
    by_cases hxy : x = y
    · rw [← hxy, List.count_singleton_self]
      omega
    · rw [List.count_singleton, if_neg (by simpa using hxy)]
      rfl
  obtain ⟨after, hafter, hshrinks, hbalanced⟩ := decref_spec heap.live hsplit (Nat.le_refl _)
  exact ⟨after, hafter, hshrinks, hs.shrink hshrinks hbalanced⟩

theorem getPackage_sound (hs : Sound heap held) {count : Nat} {package older : Option Nat}
    {fields : EbuildField → Option Nat} (he : heap.object e = some ⟨count, .ebuild package older fields⟩)
    (hheld : ∀ pkg ∈ package, 0 < held pkg) :
    ∃ after, getPackage heap e = some (package, after) ∧ Sound after fun y => held y + package.toList.count y := by
  cases package with
  | none => exact ⟨heap, by rw [getPackage, he], hs⟩
  | some p =>
    obtain ⟨object, hobject⟩ := hs.balanced.alive (Nat.lt_of_lt_of_le (hheld p rfl) (Nat.le_add_right _ _))
    obtain ⟨after, hafter, hsound⟩ := incref_sound hs (by rw [hobject]; rfl)
    exact ⟨after, by rw [getPackage, he]; dsimp only; rw [hafter]; rfl, hsound⟩

theorem step_sound {s : PyRun} {op : PyOp} (hs : Sound s.heap s.held) (hok : OpOk s op) :
    ∃ t, step newer s op = some t ∧ Sound t.heap t.held := by
  cases op with
  | build value => exact ⟨_, rfl, build_sound hs value hok.1 hok.2⟩
  | incref x =>
    obtain ⟨after, hafter, hsound⟩ := incref_sound hs hok
    exact ⟨_, by rw [step, hafter]; rfl, hsound⟩
  | decref x =>
    obtain ⟨after, hafter, -, hsound⟩ := decref_sound hs hok
    exact ⟨_, by rw [step, hafter]; rfl, hsound⟩
  | addEbuild pkg ebuild =>
    obtain ⟨⟨countp, ebuilds, hp⟩, hheld, count, package, older, fields, he⟩ := hok
    obtain ⟨after, hafter, hsound⟩ := addEbuild_sound newer hs hp he hheld
    exact ⟨_, by rw [step, hafter]; rfl, hsound⟩
  | setField ebuild field x =>
    obtain ⟨⟨count, package, older, fields, he, hnone⟩, hheld, hpart⟩ := hok
    exact ⟨_, by rw [step, assign, he]; rfl, assign_sound hs he hnone hpart hheld⟩
  | getPackage ebuild =>
    obtain ⟨count, package, older, fields, he, hheld⟩ := hok
    obtain ⟨after, hafter, hsound⟩ := getPackage_sound hs he hheld
    exact ⟨_, by rw [step, hafter]; rfl, hsound⟩

theorem run_sound {ops : List PyOp} {s : PyRun} (hs : Sound s.heap s.held)
    (hok : AllOk (step newer) OpOk s ops) :
    ∃ t, run (step newer) s ops = some t ∧ Sound t.heap t.held := by
  induction ops generalizing s with
  | nil => exact ⟨s, rfl, hs⟩
  | cons op ops ih =>
    obtain ⟨mid, hmid, hsound⟩ := step_sound hs hok.1
    obtain ⟨t, ht, hsound'⟩ := ih hsound (hok.2 mid hmid)
    exact ⟨t, by rw [run, hmid]; exact ht, hsound'⟩

/-- In every run of the extension no freed object is touched, each reference is counted
once, and what is there is what a reference that is held leads to. -/
theorem objects_counted (newer : Nat → Nat → Bool) (ops : List PyOp) (hok : AllOk (step newer) OpOk empty ops) :
    ∃ s, run (step newer) empty ops = some s ∧
      (∀ x object, s.heap.object x = some object → object.count = s.held x + s.heap.owners PyValue.owned x) ∧
      ∀ x, (s.heap.object x).isSome = true ↔
        ∃ root, 0 < s.held root ∧ ReflTransGen (Owns PyValue.owned s.heap) root x := by
  obtain ⟨s, hs, hsound⟩ := run_sound sound_empty hok
  refine ⟨s, hs, hsound.balanced.count, fun x => ?_⟩
  rw [Option.isSome_iff_exists]
  exact hsound.balanced.alive_iff hsound.grounded x

/-- Two ebuilds are put into a package, and the newer one is let go. -/
def twoEbuilds : List PyOp :=
  [.build (.package none), .build (.atomVersion none), .build (.ebuild none none fun _ => none),
    .build (.ebuild none none fun _ => none), .setField 2 .version 1, .addEbuild 0 2, .addEbuild 0 3,
    .decref 3]

theorem twoEbuilds_ok : AllOk (step fun a b => decide (b < a)) OpOk empty twoEbuilds := by
  refine ⟨⟨fun _ => Nat.zero_le _, rfl⟩, ?_⟩
  rintro _ ⟨⟩
  refine ⟨⟨fun _ => Nat.zero_le _, fun _ hx => absurd hx (by simp [PyValue.owned])⟩, ?_⟩
  rintro _ ⟨⟩
  refine ⟨⟨fun _ => Nat.zero_le _, rfl, rfl, fun _ _ hx => absurd hx (by simp)⟩, ?_⟩
  rintro _ ⟨⟩
  refine ⟨⟨fun _ => Nat.zero_le _, rfl, rfl, fun _ _ hx => absurd hx (by simp)⟩, ?_⟩
  rintro _ ⟨⟩
  refine ⟨⟨⟨_, _, _, _, rfl, rfl⟩, by decide, _, rfl, rfl⟩, ?_⟩
  rintro _ ⟨⟩
  refine ⟨⟨⟨_, _, rfl⟩, by decide, _, _, _, _, rfl⟩, ?_⟩
  rintro _ ⟨⟩
  refine ⟨⟨⟨_, _, rfl⟩, by decide, _, _, _, _, rfl⟩, ?_⟩
  rintro _ ⟨⟩
  refine ⟨show 0 < _ by decide, fun _ _ => trivial⟩

theorem objects_counted_two : ∃ s, run (step fun a b => decide (b < a)) empty twoEbuilds = some s ∧
    (∀ x object, s.heap.object x = some object → object.count = s.held x + s.heap.owners PyValue.owned x) ∧
    ∀ x, (s.heap.object x).isSome = true ↔
      ∃ root, 0 < s.held root ∧ ReflTransGen (Owns PyValue.owned s.heap) root x :=
  objects_counted _ twoEbuilds twoEbuilds_ok

theorem chain_unique {current : Option Nat} {l l' : List Nat} (h : Chain heap p current l none)
    (h' : Chain heap p current l' none) : l = l' := by
  induction l generalizing current l' with
  | nil =>
    obtain rfl := h
    cases l' with
    | nil => rfl
    | cons e l' => exact absurd h'.1 (by simp)
  | cons e l ih =>
    obtain ⟨rfl, older, fields, he, hrest⟩ := h
    cases l' with
    | nil => exact absurd h' (by simp [Chain])
    | cons e' l' =>
      obtain ⟨heq, older', fields', he', hrest'⟩ := h'
      obtain rfl := Option.some.inj heq
      obtain ⟨-, rfl, -⟩ := PyValue.ebuild.inj (Option.some.inj (he.symm.trans he'))
      rw [ih hrest hrest']

/-- From the first ebuild that is held on the others are led to. -/
theorem chain_held (hwf : WellFounded (Owns PyValue.owned heap)) {current : Option Nat} {l : List Nat}
    (h : Chain heap p current l none) (he : e ∈ l) :
    (∃ root ∈ l, 0 < held root ∧ ReflTransGen (Owns PyValue.owned heap) root e) ↔
      e ∈ l.dropWhile fun e => held e = 0 := by
  induction l generalizing current with
  | nil => exact absurd he List.not_mem_nil
  | cons f l ih =>
    obtain ⟨hbelow, -⟩ := chain_first h
    obtain ⟨-, older, fields, -, hrest⟩ := h
    by_cases hf : held f = 0
    · rw [List.dropWhile_cons_of_pos (by simpa using hf)]
      constructor
      · rintro ⟨root, hroot, hheld, hpath⟩
        have hroot' : root ∈ l := (List.mem_cons.mp hroot).resolve_left fun heq => by
          rw [heq, hf] at hheld
          exact Nat.lt_irrefl 0 hheld
        rcases List.mem_cons.mp he with rfl | he
        · exact absurd ((hbelow root hroot').trans_left hpath) (no_cycle hwf e)
        · exact (ih hrest he).mp ⟨root, hroot', hheld, hpath⟩
      · intro hdrop
        have he' := (List.dropWhile_sublist _).subset hdrop
        obtain ⟨root, hroot, hheld, hpath⟩ := (ih hrest he').mpr hdrop
        exact ⟨root, List.mem_cons_of_mem f hroot, hheld, hpath⟩
    · rw [List.dropWhile_cons_of_neg (by simpa using hf)]
      refine iff_of_true ⟨f, List.mem_cons_self, Nat.pos_of_ne_zero hf, ?_⟩ he
      rcases List.mem_cons.mp he with rfl | he
      · exact .refl
      · exact (hbelow e he).to_reflTransGen

/-- Where a package is gone only ebuilds of it lead to its ebuilds. -/
theorem placed_above (hs : Sound heap held) (hp : heap.object p = none) {y : Nat}
    (hpath : ReflTransGen (Owns PyValue.owned heap) y e)
    (he : ∃ older fields, valueAt heap e = some (.ebuild (some p) older fields)) :
    ∃ older fields, valueAt heap y = some (.ebuild (some p) older fields) := by
  induction hpath using ReflTransGen.head_induction_on with
  | refl => exact he
  | head hstep _ ih =>
    obtain ⟨older, fields, hplaced⟩ := ih
    rcases hs.shaped.owner_cases hstep with ⟨hy, older', fields', hz⟩ | ⟨p', fields', hy, older', fields'', hz⟩ | hpart
    · obtain ⟨heq, -⟩ := PyValue.ebuild.inj (Option.some.inj (hplaced.symm.trans hz))
      obtain rfl := Option.some.inj heq
      rw [valueAt, hp] at hy
      exact absurd hy (by simp)
    · obtain ⟨heq, -⟩ := PyValue.ebuild.inj (Option.some.inj (hplaced.symm.trans hz))
      exact ⟨_, fields', heq ▸ hy⟩
    · exact absurd hpart (not_part_ebuild hplaced)

theorem alive_below (hs : Sound after held) (h : Shrinks heap after) {y : Nat}
    (hpath : ReflTransGen (Owns PyValue.owned heap) y e) (hy : (after.object y).isSome = true) :
    (after.object e).isSome = true := by
  induction hpath with
  | refl => exact hy
  | tail _ hstep ih =>
    obtain ⟨object, hobject⟩ := Option.isSome_iff_exists.mp ih
    obtain ⟨old, hold, hvalue⟩ := h.kept _ object hobject
    obtain ⟨old', hold', hmem⟩ := hstep
    obtain rfl := Option.some.inj (hold.symm.trans hold')
    obtain ⟨below, hbelow⟩ := hs.balanced.owned_alive ⟨object, hobject, hvalue ▸ hmem⟩
    exact Option.isSome_iff_exists.mpr ⟨below, hbelow⟩

/-- Where the last reference to a package goes, its ebuilds go up to the first that is
held; those that are left still point to it, so that their package is not to be read. -/
theorem package_dropped {newer : Nat → Nat → Bool} {ops : List PyOp} {s : PyRun} {ebuilds : Option Nat}
    {l : List Nat} (hok : AllOk (step newer) OpOk empty ops) (hrun : run (step newer) empty ops = some s)
    (hp : s.heap.object p = some ⟨1, .package ebuilds⟩) (hchain : Chain s.heap p ebuilds l none) :
    ∃ t, step newer s (.decref p) = some t ∧ t.heap.object p = none ∧
      ∀ e ∈ l, ((t.heap.object e).isSome = true ↔ e ∈ l.dropWhile fun e => s.held e = 0) ∧
        ((t.heap.object e).isSome = true → getPackage t.heap e = none) := by
  obtain ⟨s', hs', hs⟩ := run_sound sound_empty hok
  obtain rfl := Option.some.inj (hs'.symm.trans hrun)
  have hvalue : valueAt s'.heap p = some (.package ebuilds) := valueAt_some.mpr ⟨1, hp⟩
  have hunowned : ∀ y, ¬ Owns PyValue.owned s'.heap y p := fun y => hs.shaped.package_unowned hvalue
  have howners : s'.heap.owners PyValue.owned p = 0 := by
    by_contra hne
    obtain ⟨y, hy⟩ := owners_pos.mp (Nat.pos_of_ne_zero hne)
    exact hunowned y hy
  have hheld : s'.held p = 1 := by
    have hcount := hs.balanced.count p _ hp
    rw [howners] at hcount
    exact hcount.symm
  obtain ⟨after, hafter, hshrinks, hs₂⟩ := decref_sound hs (by omega : 0 < s'.held p)
  have hgone : after.object p = none := by
    cases hobject : after.object p with
    | none => rfl
    | some object =>
      have hcount := hs₂.balanced.count p object hobject
      have hpos := hs₂.balanced.positive p object hobject
      rw [List.count_singleton_self, hheld] at hcount
      obtain ⟨y, hy⟩ := owners_pos.mp (by omega : 0 < after.owners PyValue.owned p)
      exact absurd (hshrinks.owns hy) (hunowned y)
  obtain ⟨l', hchain', hall⟩ := hs.chained p ebuilds hvalue
  obtain rfl := chain_unique hchain hchain'
  refine ⟨_, by rw [step, hafter]; rfl, hgone, fun e he => ?_⟩
  obtain ⟨older, fields, hplaced⟩ := chain_value hchain he
  constructor
  · rw [← chain_held hs.grounded hchain he]
    constructor
    · intro halive
      obtain ⟨root, hroot, hpath⟩ := (hs₂.balanced.alive_iff hs₂.grounded e).mp (Option.isSome_iff_exists.mp halive)
      obtain ⟨object, hobject⟩ := Option.isSome_iff_exists.mp halive
      have hkept : valueAt after e = some object.value := by rw [valueAt, hobject]; rfl
      have hsame := (valueAt_kept hshrinks hkept).symm.trans hplaced
      obtain ⟨older', fields', hrootPlaced⟩ := placed_above hs₂ hgone hpath
        ⟨older, fields, hkept.trans hsame⟩
      exact ⟨root, hall root _ _ (valueAt_kept hshrinks hrootPlaced), Nat.lt_of_lt_of_le hroot (Nat.sub_le _ _),
        hpath.lift id fun _ _ => hshrinks.owns⟩
    · rintro ⟨root, hroot, hrootHeld, hpath⟩
      obtain ⟨older', fields', hrootPlaced⟩ := chain_value hchain hroot
      have hne : p ≠ root := by
        rintro rfl
        exact absurd (hvalue.symm.trans hrootPlaced) (by simp)
      refine alive_below hs₂ hshrinks hpath (Option.isSome_iff_exists.mpr (hs₂.balanced.alive ?_))
      rw [List.count_singleton, if_neg (by simpa using hne), Nat.sub_zero]
      exact Nat.lt_of_lt_of_le hrootHeld (Nat.le_add_right _ _)
  · intro halive
    obtain ⟨⟨count, value⟩, hobject⟩ := Option.isSome_iff_exists.mp halive
    have hkept : valueAt after e = some value := valueAt_some.mpr ⟨count, hobject⟩
    obtain rfl := Option.some.inj ((valueAt_kept hshrinks hkept).symm.trans hplaced)
    rw [getPackage, hobject]
    dsimp only
    rw [incref, hgone]
    rfl

theorem package_dropped_two : ∃ s, run (step fun a b => decide (b < a)) empty twoEbuilds = some s ∧
    ∃ t, step (fun a b => decide (b < a)) s (.decref 0) = some t ∧ t.heap.object 0 = none ∧
      ∀ e ∈ [3, 2], ((t.heap.object e).isSome = true ↔ e ∈ [3, 2].dropWhile fun e => s.held e = 0) ∧
        ((t.heap.object e).isSome = true → getPackage t.heap e = none) :=
  ⟨_, rfl, package_dropped twoEbuilds_ok rfl rfl ⟨rfl, _, _, rfl, rfl, _, _, rfl, rfl⟩⟩

end PyRun

end AutoGentoo
