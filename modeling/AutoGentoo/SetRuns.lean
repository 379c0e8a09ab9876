import AutoGentoo.SetKinds
import AutoGentoo.SetRefinement

/-! Runs of the operations on the sets of a program. -/

namespace AutoGentoo

open Representatives

namespace SetPrv

variable (call : Nat → Nat → Nat → Int)

def lists : SetKind (List Nat) where
  empty := []
  add c := insert (Equal call c)
  remove c := erase (Equal call c)
  union c := insertAll (Equal call c)
  inter c := interLarger call c

/-- The sets of all that is equal to an element. -/
def classes : SetKind (Set Nat) where
  empty := ∅
  add c a x := a ∪ {y | Equal call c y x}
  remove c a x := a \ {y | Equal call c y x}
  union _ a b := a ∪ b
  inter _ a b := a ∩ b

def step (sets : List SetPrv) : SetOp → Option (List SetPrv)
  | .new c => some (sets ++ [setNew c])
  | .add i x => sets[i]?.bind fun s => (s.setAdd call x).map fun r => sets.set i r.2
  | .remove i x => sets[i]?.bind fun s => (s.setRemove call x).map fun r => sets.set i r.2
  | .union i j => setUnion call sets i j
  | .dup i => sets[i]?.bind fun s => (s.setDup call).map fun out => sets ++ [out]
  | .intersect i j => sets[i]?.bind fun a => sets[j]?.bind fun b =>
      (setIntersect call a b).map fun out => sets ++ out.toList

/-- The number of elements is an `int`. -/
def Fits (sets : List (Nat × List Nat)) (op : SetOp) : Prop :=
  ∀ a ∈ (lists call).apply sets op, a.2.length < 2 ^ 31

instance (elements : List (Nat × List Nat)) (op : SetOp) : Decidable (Fits call elements op) :=
  inferInstanceAs (Decidable (∀ a ∈ (lists call).apply elements op, a.2.length < 2 ^ 31))

/-- Each set has its function and its elements. -/
structure Matches (sets : List SetPrv) (elements : List (Nat × List Nat)) : Prop where
  length : sets.length = elements.length
  each : ∀ (i : Nat) (s : SetPrv) (a : Nat × List Nat), sets[i]? = some s → elements[i]? = some a →
    Holds call a.1 s a.2 ∧ a.2.length < 2 ^ 31

variable {call} {sets : List SetPrv} {elements : List (Nat × List Nat)} {i j c : Nat} {l l' : List Nat}

theorem matches_nil : Matches call [] [] := ⟨rfl, by simp⟩

theorem Matches.at (h : Matches call sets elements) (hi : elements[i]? = some (c, l)) :
    ∃ s, sets[i]? = some s ∧ Holds call c s l ∧ l.length < 2 ^ 31 := by
  have hlt : i < sets.length := h.length ▸ (List.getElem?_eq_some_iff.mp hi).1
  exact ⟨sets[i], List.getElem?_eq_getElem hlt, h.each i sets[i] (c, l) (List.getElem?_eq_getElem hlt) hi⟩

theorem Matches.of_mem (h : Matches call sets elements) {s : SetPrv} (hs : s ∈ sets) :
    ∃ c l, Holds call c s l ∧ l.length < 2 ^ 31 := by
  obtain ⟨i, hi⟩ := List.mem_iff_getElem?.mp hs
  have hlt : i < elements.length := h.length ▸ (List.getElem?_eq_some_iff.mp hi).1
  exact ⟨elements[i].1, elements[i].2, h.each i s elements[i] hi (List.getElem?_eq_getElem hlt)⟩

theorem Matches.set (h : Matches call sets elements) {s : SetPrv} (hs : Holds call c s l)
    (hl : l.length < 2 ^ 31) (i : Nat) : Matches call (sets.set i s) (elements.set i (c, l)) := by
  refine ⟨by rw [List.length_set, List.length_set, h.length], fun k s' a hs' ha => ?_⟩
  rw [List.getElem?_set] at hs' ha
  split_ifs at hs' ha with hik hlt hlt'
  · obtain rfl := Option.some.inj hs'
    obtain rfl := Option.some.inj ha
    exact ⟨hs, hl⟩
  · exact h.each k s' a hs' ha

theorem Matches.append (h : Matches call sets elements) {s : SetPrv} (hs : Holds call c s l)
    (hl : l.length < 2 ^ 31) : Matches call (sets ++ [s]) (elements ++ [(c, l)]) := by
  refine ⟨by simp [h.length], fun k s' a hs' ha => ?_⟩
  rw [List.getElem?_append, h.length] at hs'
  rw [List.getElem?_append] at ha
  split_ifs at hs' ha
  · exact h.each k s' a hs' ha
  · rw [List.getElem?_singleton] at hs' ha
    split_ifs at hs' ha
    obtain rfl := Option.some.inj hs'
    obtain rfl := Option.some.inj ha
    exact ⟨hs, hl⟩

theorem set_self (h : elements[i]? = some (c, l)) : elements.set i (c, l) = elements := by
  obtain ⟨hlt, hget⟩ := List.getElem?_eq_some_iff.mp h
  rw [← hget, List.set_getElem_self]

theorem get_set (h : elements[i]? = some (c, l)) (a : Nat × List Nat) : (elements.set i a)[i]? = some a := by
  rw [List.getElem?_set_self (List.getElem?_eq_some_iff.mp h).1]

/-- The elements from a place on go into the first set. If that is the same one, they are
all inside, and it stays as it is. -/
theorem unionLoop_spec (hcall : Equivalences call) (rest done : List Nat) {fuel : Nat}
    (h : Matches call sets elements) (hi : elements[i]? = some (c, l))
    (hj : elements[j]? = some (c, done ++ rest))
    (hsame : i = j → ∀ x ∈ rest, Inside (Equal call c) l x) (hfuel : rest.length < fuel) :
    ((insertAll (Equal call c) l rest).length < 2 ^ 31 →
      ∃ after, unionLoop call fuel sets i j done.length = some after ∧
        Matches call after (elements.set i (c, insertAll (Equal call c) l rest))) ∧
      (¬ (insertAll (Equal call c) l rest).length < 2 ^ 31 →
        unionLoop call fuel sets i j done.length = none) := by
  induction rest generalizing done sets elements l fuel with
  | nil =>
    obtain ⟨fuel, rfl⟩ := Nat.exists_eq_succ_of_ne_zero (Nat.ne_zero_of_lt hfuel)
    obtain ⟨left, -, -, hl⟩ := h.at hi
    obtain ⟨right, hright, hholds, -⟩ := h.at hj
    refine ⟨fun _ => ⟨sets, ?_, by rwa [show insertAll (Equal call c) l [] = l from rfl, set_self hi]⟩,
      fun hfull => absurd hl hfull⟩
    rw [unionLoop, hright, Option.bind_some, hholds.parent.n, List.append_nil, if_pos (Nat.le_refl _)]
  | cons x rest ih =>
    obtain ⟨fuel, rfl⟩ := Nat.exists_eq_succ_of_ne_zero (Nat.ne_zero_of_lt hfuel)
    rw [List.length_cons] at hfuel
    obtain ⟨left, hleft, hholds, hl⟩ := h.at hi
    obtain ⟨right, hright, hholds', -⟩ := h.at hj
    have hmore : ¬ right.parent.n ≤ done.length := by
      rw [hholds'.parent.n, List.length_append, List.length_cons]
      omega
    have hget : right.setGet done.length = some x := hholds'.parent.get
    have hturn : unionLoop call (fuel + 1) sets i j done.length =
        (left.setAdd call x).bind fun r => unionLoop call fuel (sets.set i r.2) i j (done.length + 1) := by
      rw [unionLoop, hright, Option.bind_some, if_neg hmore, hget, Option.bind_some, hleft, Option.bind_some]
    have hassoc : done ++ x :: rest = (done ++ [x]) ++ rest := by rw [List.append_assoc]; rfl
    have hdone : done.length + 1 = (done ++ [x]).length := by simp
    rw [hturn, show insertAll (Equal call c) l (x :: rest) =
      insertAll (Equal call c) (insert (Equal call c) l x) rest from rfl]
    by_cases hfits : (insert (Equal call c) l x).length < 2 ^ 31
    · obtain ⟨added, left', hadd, hleft'⟩ := setAdd_spec hcall hholds hfits
      have hj' : (elements.set i (c, insert (Equal call c) l x))[j]? = some (c, (done ++ [x]) ++ rest) := by
        by_cases hij : i = j
        · have hx := hsame hij x List.mem_cons_self
          rw [insert_of_inside hx, set_self hi, hj, hassoc]
        · rw [List.getElem?_set_ne hij, hj, hassoc]
      have hrest := ih (done ++ [x]) (h.set hleft' hfits i) (get_set hi _) hj' (fun hij y hy => by
        rw [insert_of_inside (hsame hij x List.mem_cons_self)]
        exact hsame hij y (List.mem_cons_of_mem x hy)) (by omega : rest.length < fuel)
      rw [List.set_set, ← hdone] at hrest
      rw [hadd, Option.bind_some]
      exact hrest
    · rw [setAdd_full hholds hl hfits, Option.bind_none]
      have hle := length_le_insertAll (r := Equal call c) (insert (Equal call c) l x) rest
      exact ⟨fun hall => absurd (Nat.lt_of_le_of_lt hle hall) hfits, fun _ => rfl⟩

theorem setUnion_spec (hcall : Equivalences call) (h : Matches call sets elements)
    (hi : elements[i]? = some (c, l)) (hj : elements[j]? = some (c, l')) :
    ((insertAll (Equal call c) l l').length < 2 ^ 31 → ∃ after, setUnion call sets i j = some after ∧
      Matches call after (elements.set i (c, insertAll (Equal call c) l l'))) ∧
      (¬ (insertAll (Equal call c) l l').length < 2 ^ 31 → setUnion call sets i j = none) := by
  obtain ⟨left, hleft, hholds, -⟩ := h.at hi
  obtain ⟨right, hright, hholds', hl'⟩ := h.at hj
  have hsame : ¬ left.cmpFunc ≠ right.cmpFunc := not_not.mpr (hholds.cmp.trans hholds'.cmp.symm)
  have hunion : setUnion call sets i j = unionLoop call (2 ^ 31) sets i j 0 := by
    rw [setUnion, hleft, Option.bind_some, hright, Option.bind_some, if_neg hsame]
  rw [hunion]
  refine unionLoop_spec hcall l' [] h hi hj (fun hij x hx => ?_) hl'
  obtain rfl : l = l' := congrArg Prod.snd (Option.some.inj (hi.symm.trans (hij ▸ hj)))
  exact inside_of_mem (equal_equivalence hcall c) hx

theorem setUnion_other {c' : Nat} (h : Matches call sets elements) (hi : elements[i]? = some (c, l))
    (hj : elements[j]? = some (c', l')) (hne : c ≠ c') : setUnion call sets i j = some sets := by
  obtain ⟨left, hleft, hholds, -⟩ := h.at hi
  obtain ⟨right, hright, hholds', -⟩ := h.at hj
  have hdiffer : left.cmpFunc ≠ right.cmpFunc := by rwa [hholds.cmp, hholds'.cmp]
  rw [setUnion, hleft, Option.bind_some, hright, Option.bind_some, if_pos hdiffer]

theorem Matches.lengths (h : Matches call sets elements) : ∀ a ∈ elements, a.2.length < 2 ^ 31 := by
  intro a ha
  obtain ⟨i, hi⟩ := List.mem_iff_getElem?.mp ha
  obtain ⟨-, -, -, hl⟩ := h.at hi
  exact hl

theorem Matches.fits_set (h : Matches call sets elements) (hi : elements[i]? = some (c, l)) (a : Nat × List Nat) :
    (∀ b ∈ elements.set i a, b.2.length < 2 ^ 31) ↔ a.2.length < 2 ^ 31 := by
  constructor
  · exact fun hall => hall a (List.mem_of_getElem? (get_set hi a))
  · intro ha b hb
    rcases List.mem_or_eq_of_mem_set hb with hb | rfl
    · exact h.lengths b hb
    · exact ha

theorem Matches.fits_append (h : Matches call sets elements) {a : Nat × List Nat}
    (ha : a.2.length < 2 ^ 31) : ∀ b ∈ elements ++ [a], b.2.length < 2 ^ 31 := by
  intro b hb
  rcases List.mem_append.mp hb with hb | hb
  · exact h.lengths b hb
  · rwa [List.mem_singleton.mp hb]

theorem interLarger_length (call : Nat → Nat → Nat → Int) (c : Nat) {l l' : List Nat}
    (hl : l.length < 2 ^ 31) (hl' : l'.length < 2 ^ 31) : (interLarger call c l l').length < 2 ^ 31 := by
  rw [interLarger]
  split_ifs
  · exact Nat.lt_of_le_of_lt (List.length_filter_le _ l) hl
  · exact Nat.lt_of_le_of_lt (List.length_filter_le _ l') hl'

variable (call) in
/-- A step whose sets fit is the step on lists, any other is undefined. -/
def Follows (sets : List SetPrv) (elements : List (Nat × List Nat)) (op : SetOp) : Prop :=
  (Fits call elements op → ∃ after, step call sets op = some after ∧
    Matches call after ((lists call).apply elements op)) ∧
    (¬ Fits call elements op → step call sets op = none)

theorem Matches.follows_set (h : Matches call sets elements) {op : SetOp} (hi : elements[i]? = some (c, l))
    (happly : (lists call).apply elements op = elements.set i (c, l'))
    (hfits : l'.length < 2 ^ 31 → ∃ s, step call sets op = some (sets.set i s) ∧ Holds call c s l')
    (hfull : ¬ l'.length < 2 ^ 31 → step call sets op = none) : Follows call sets elements op := by
  rw [Follows, Fits, happly, h.fits_set hi]
  refine ⟨fun hl' => ?_, hfull⟩
  obtain ⟨s, hs, hholds⟩ := hfits hl'
  exact ⟨_, hs, h.set hholds hl' i⟩

theorem Matches.follows_append (h : Matches call sets elements) {op : SetOp}
    (happly : (lists call).apply elements op = elements ++ [(c, l')]) (hl' : l'.length < 2 ^ 31)
    (hstep : ∃ s, step call sets op = some (sets ++ [s]) ∧ Holds call c s l') : Follows call sets elements op := by
  obtain ⟨s, hs, hholds⟩ := hstep
  rw [Follows, Fits, happly]
  exact ⟨fun _ => ⟨_, hs, h.append hholds hl'⟩, fun hfull => absurd (h.fits_append hl') hfull⟩

theorem Matches.follows_self (h : Matches call sets elements) {op : SetOp}
    (happly : (lists call).apply elements op = elements) (hstep : step call sets op = some sets) :
    Follows call sets elements op := by
  rw [Follows, Fits, happly]
  exact ⟨fun _ => ⟨_, hstep, h⟩, fun hfull => absurd h.lengths hfull⟩

theorem step_spec (hcall : Equivalences call) (h : Matches call sets elements) {op : SetOp}
    (hok : PlacesOk elements op) : Follows call sets elements op := by
  cases op with
  | new c => exact h.follows_append rfl (Nat.two_pow_pos 31) ⟨setNew c, rfl, holds_new call c⟩
  | add i x =>
    obtain ⟨c, l, hi⟩ := SetKind.exists_get hok
    obtain ⟨s, hs, hholds, hl⟩ := h.at hi
    have hstep : step call sets (.add i x) = (s.setAdd call x).map fun r => sets.set i r.2 := by
      rw [step, hs, Option.bind_some]
    refine h.follows_set hi (SetKind.apply_add hi x) (fun hfits => ?_) fun hfull => ?_
    · obtain ⟨added, after, hadd, hafter⟩ := setAdd_spec hcall hholds hfits
      exact ⟨after, by rw [hstep, hadd]; rfl, hafter⟩
    · rw [hstep, setAdd_full hholds hl hfull]
      rfl
  | remove i x =>
    obtain ⟨c, l, hi⟩ := SetKind.exists_get hok
    obtain ⟨s, hs, hholds, hl⟩ := h.at hi
    have hle : (erase (Equal call c) l x).length < 2 ^ 31 := Nat.lt_of_le_of_lt List.length_eraseP_le hl
    refine h.follows_set hi (SetKind.apply_remove hi x) (fun _ => ?_) fun hfull => absurd hle hfull
    obtain ⟨out, after, hremove, hafter⟩ := setRemove_spec hholds x
    refine ⟨after, ?_, hafter⟩
    rw [step, hs, Option.bind_some, hremove]
    rfl
  | union i j =>
    obtain ⟨c, l, hi⟩ := SetKind.exists_get hok.1
    obtain ⟨c', l', hj⟩ := SetKind.exists_get hok.2
    by_cases hcc : c = c'
    · subst hcc
      have happly : (lists call).apply elements (.union i j) =
          elements.set i (c, insertAll (Equal call c) l l') := SetKind.apply_union hi hj
      rw [Follows, Fits, happly, h.fits_set hi, step]
      exact setUnion_spec hcall h hi hj
    · exact h.follows_self (SetKind.apply_union_other hi hj hcc) (setUnion_other h hi hj hcc)
  | dup i =>
    obtain ⟨c, l, hi⟩ := SetKind.exists_get hok
    obtain ⟨s, hs, hholds, hl⟩ := h.at hi
    refine h.follows_append (SetKind.apply_dup hi) hl ?_
    obtain ⟨out, hdup, hout⟩ := setDup_spec hcall hholds hl
    refine ⟨out, ?_, hout⟩
    rw [step, hs, Option.bind_some, hdup]
    rfl
  | intersect i j =>
    obtain ⟨c, l, hi⟩ := SetKind.exists_get hok.1
    obtain ⟨c', l', hj⟩ := SetKind.exists_get hok.2
    obtain ⟨s, hs, hholds, hl⟩ := h.at hi
    obtain ⟨s', hs', hholds', hl'⟩ := h.at hj
    by_cases hcc : c = c'
    · subst hcc
      refine h.follows_append (SetKind.apply_intersect hi hj) (interLarger_length call c hl hl') ?_
      obtain ⟨out, hinter, hout⟩ := setIntersect_spec hcall hholds hholds' hl hl'
      refine ⟨out, ?_, hout⟩
      rw [step, hs, Option.bind_some, hs', Option.bind_some, hinter]
      rfl
    · have hdiffer : s.cmpFunc ≠ s'.cmpFunc := by rwa [hholds.cmp, hholds'.cmp]
      refine h.follows_self (SetKind.apply_intersect_other hi hj hcc) ?_
      rw [step, hs, Option.bind_some, hs', Option.bind_some, setIntersect, if_pos hdiffer, Option.map_some,
        Option.toList_none, List.append_nil]

theorem lists_keep_distinct (hcall : Equivalences call) :
    (lists call).Keeps fun c l => Distinct (Equal call c) l where
  empty _ := List.Pairwise.nil
  add := fun {c _} hl x => hl.insert (equal_equivalence hcall c) x
  remove hl x := hl.erase x
  union := fun {c _ b} hl _ => hl.insertAll (equal_equivalence hcall c) b
  inter := by
    intro c a b ha hb
    change Distinct (Equal call c) (interLarger call c a b)
    rw [interLarger]
    split_ifs
    · exact ha.inter b
    · exact hb.inter a

theorem classes_image (hcall : Equivalences call) :
    (lists call).Image (classes call) (fun c l => Distinct (Equal call c) l) fun c => carrier (Equal call c) where
  empty _ := carrier_nil.symm
  add := fun {c a} _ x => (carrier_insert (equal_equivalence hcall c) a x).symm
  remove := fun {c _} hl x => (carrier_erase (equal_equivalence hcall c) hl x).symm
  union := fun {c a b} _ _ => (carrier_insertAll (equal_equivalence hcall c) a b).symm
  inter := fun {c a b} _ _ => (carrier_interLarger hcall c a b).symm

variable (call) in
def listStep (elements : List (Nat × List Nat)) (op : SetOp) : Option (List (Nat × List Nat)) :=
  some ((lists call).apply elements op)

theorem run_spec (hcall : Equivalences call) (ops : List SetOp)
    (hok : GuardedRun.AllOk (listStep call) PlacesOk [] ops) :
    ((∃ sets, GuardedRun.run (step call) [] ops = some sets) ↔
        GuardedRun.AllOk (listStep call) (Fits call) [] ops) ∧
      ∀ sets, GuardedRun.run (step call) [] ops = some sets →
        Matches call sets (ops.foldl (lists call).apply []) :=
  GuardedRun.run_simulates (lists call).apply (Matches call) PlacesOk (Fits call)
    (fun h hop hfits => (step_spec hcall h hop).1 hfits) (fun h hop hfull => (step_spec hcall h hop).2 hfull)
    matches_nil ops hok

/-- The set has what the mathematical one has, and no two of its elements are equal. -/
structure Is (call : Nat → Nat → Nat → Int) (s : SetPrv) (a : Nat × Set Nat) : Prop where
  cmp : s.cmpFunc = a.1
  distinct : ∀ i j, i < j → j < s.parent.n →
    ∃ x y, s.setGet i = some x ∧ s.setGet j = some y ∧ ¬ Equal call s.cmpFunc x y
  inside : ∀ x, ∃ index, s.setInside call x = some index ∧ (index ≠ -1 ↔ x ∈ a.2)

theorem Holds.is {s : SetPrv} (h : Holds call c s l) : Is call s (c, carrier (Equal call c) l) := by
  refine ⟨h.cmp, fun i j hij hj => ?_, fun x => h.setInside_iff x⟩
  rw [h.parent.n] at hj
  have hget : ∀ k (hk : k < l.length), s.setGet k = some l[k] := by
    intro k hk
    obtain ⟨front, x, back, rfl, rfl, -⟩ := Vector.exists_split hk
    rw [setGet, h.parent.get]
    simp
  refine ⟨l[i], l[j], hget i (hij.trans hj), hget j hj, ?_⟩
  rw [h.cmp]
  exact List.pairwise_iff_getElem.mp h.distinct i j (hij.trans hj) hj hij

theorem setIntersect_comm (hcall : Equivalences call) {s s' : SetPrv} (h : Holds call c s l) (h' : Holds call c s' l')
    (hl : l.length < 2 ^ 31) (hl' : l'.length < 2 ^ 31) :
    ∃ out out', setIntersect call s s' = some (some out) ∧ setIntersect call s' s = some (some out') ∧
      ∀ x, ∃ index index', out.setInside call x = some index ∧ out'.setInside call x = some index' ∧
        (index ≠ -1 ↔ index' ≠ -1) := by
  obtain ⟨out, hinter, hout⟩ := setIntersect_spec hcall h h' hl hl'
  obtain ⟨out', hinter', hout'⟩ := setIntersect_spec hcall h' h hl' hl
  refine ⟨out, out', hinter, hinter', fun x => ?_⟩
  obtain ⟨index, hindex, hiff⟩ := hout.setInside_iff x
  obtain ⟨index', hindex', hiff'⟩ := hout'.setInside_iff x
  refine ⟨index, index', hindex, hindex', hiff.trans (Iff.trans ?_ hiff'.symm)⟩
  rw [← mem_carrier, ← mem_carrier, carrier_interLarger hcall, carrier_interLarger hcall, Set.inter_comm]

/-- A run is defined as long as the number of elements of each set is an `int`, and then
each set is the mathematical one. -/
theorem sets_refine_classes (hcall : Equivalences call) (ops : List SetOp)
    (hok : GuardedRun.AllOk (listStep call) PlacesOk [] ops) :
    ((∃ sets, GuardedRun.run (step call) [] ops = some sets) ↔
        GuardedRun.AllOk (listStep call) (Fits call) [] ops) ∧
      ∀ sets, GuardedRun.run (step call) [] ops = some sets →
        sets.length = (ops.foldl (classes call).apply []).length ∧
          (∀ (i : Nat) (s : SetPrv) (a : Nat × Set Nat), sets[i]? = some s →
            (ops.foldl (classes call).apply [])[i]? = some a → Is call s a) ∧
          ∀ s ∈ sets, ∀ s' ∈ sets, s.cmpFunc = s'.cmpFunc →
            ∃ out out', setIntersect call s s' = some (some out) ∧ setIntersect call s' s = some (some out') ∧
              ∀ x, ∃ index index', out.setInside call x = some index ∧ out'.setInside call x = some index' ∧
                (index ≠ -1 ↔ index' ≠ -1) := by
  obtain ⟨hruns, hmatches⟩ := run_spec hcall ops hok
  refine ⟨hruns, fun sets hrun => ?_⟩
  have h := hmatches sets hrun
  have hclasses := SetKind.Image.run (lists_keep_distinct hcall) (classes_image hcall) ops hok
  rw [hclasses]
  refine ⟨by rw [List.length_map, h.length], fun i s a hs ha => ?_, fun s hs s' hs' hsame => ?_⟩
  · rw [List.getElem?_map] at ha
    obtain ⟨⟨c, l⟩, hl, rfl⟩ := Option.map_eq_some_iff.mp ha
    exact (h.each i s (c, l) hs hl).1.is
  · obtain ⟨c, l, hholds, hl⟩ := h.of_mem hs
    obtain ⟨c', l', hholds', hl'⟩ := h.of_mem hs'
    obtain rfl : c = c' := hholds.cmp.symm.trans (hsame.trans hholds'.cmp)
    exact setIntersect_comm hcall hholds hholds' hl hl'

/-- Equal are numbers that are both even or both odd. -/
def sameParity (_ x y : Nat) : Int := (x % 2 : Nat) - (y % 2 : Nat)

theorem sameParity_equivalences : Equivalences sameParity := by
  intro c _
  have hiff : ∀ x y, sameParity c x y = 0 ↔ x % 2 = y % 2 := by
    intro x y
    rw [sameParity]
    omega
  simp only [hiff]
  exact ⟨fun _ => rfl, Eq.symm, Eq.trans⟩

theorem sets_refine_classes_parity : ∃ sets s,
    GuardedRun.run (step sameParity) [] [.new 1, .new 1, .add 0 3, .add 0 4, .add 1 6, .intersect 0 1] = some sets ∧
      sets[2]? = some s ∧ ∀ x, ∃ index, s.setInside sameParity x = some index ∧ (index ≠ -1 ↔ x % 2 = 0) := by
  let ops : List SetOp := [.new 1, .new 1, .add 0 3, .add 0 4, .add 1 6, .intersect 0 1]
  have hrefines := sets_refine_classes sameParity_equivalences ops (by decide)
  obtain ⟨sets, hrun⟩ := hrefines.1.mpr (by decide)
  obtain ⟨hlength, his, -⟩ := hrefines.2 sets hrun
  have hlast : 2 < sets.length := by
    rw [hlength]
    decide
  refine ⟨sets, sets[2], hrun, List.getElem?_eq_getElem hlast, fun x => ?_⟩
  obtain ⟨index, hindex, hiff⟩ := (his 2 sets[2] _ (List.getElem?_eq_getElem hlast) rfl).inside x
  refine ⟨index, hindex, hiff.trans ?_⟩
  simp [classes, Equal, sameParity]
  omega

section Additions

def numbered (n : Nat) : List (Nat × List Nat) := [(0, List.range n)]

variable (call) in
theorem listStep_numbered (n : Nat) : listStep call (numbered n) (.add 0 n) = some (numbered (n + 1)) := by
  have hnew : ¬ Inside (Equal call 0) (List.range n) n := by
    rintro ⟨m, hm, heq⟩
    have hnm : n = m := heq
    rw [← hnm] at hm
    exact Nat.lt_irrefl n (List.mem_range.mp hm)
  have hinsert : insert (Equal call 0) (List.range n) n = List.range (n + 1) := by
    rw [insert_of_not_inside hnew, List.range_succ]
  rw [listStep, SetKind.apply_add (show (numbered n)[0]? = some (0, List.range n) from rfl)]
  exact congrArg (fun l => some [(0, l)]) hinsert

theorem placesOk_additions (n start : Nat) : GuardedRun.AllOk (listStep call) PlacesOk (numbered start)
    ((List.range' start n).map (SetOp.add 0)) := by
  induction n generalizing start with
  | zero => trivial
  | succ n ih =>
    refine ⟨Nat.zero_lt_one, fun t ht => ?_⟩
    obtain rfl := Option.some.inj ((listStep_numbered call start).symm.trans ht)
    exact ih (start + 1)

theorem fits_additions {n start : Nat} (hstart : start < 2 ^ 31)
    (h : GuardedRun.AllOk (listStep call) (Fits call) (numbered start)
      ((List.range' start n).map (SetOp.add 0))) : start + n < 2 ^ 31 := by
  induction n generalizing start with
  | zero => exact hstart
  | succ n ih =>
    have happly := Option.some.inj (listStep_numbered call start)
    have hfits : (List.range (start + 1)).length < 2 ^ 31 :=
      h.1 (0, List.range (start + 1)) (happly ▸ List.mem_singleton_self _)
    rw [List.length_range] at hfits
    have hrest := ih hfits (h.2 _ (listStep_numbered call start))
    omega

end Additions

/-- The number of elements is an `int`. -/
theorem full_set : ¬ ∀ (call : Nat → Nat → Nat → Int) (ops : List SetOp), Equivalences call →
    GuardedRun.AllOk (listStep call) PlacesOk [] ops →
      ∃ sets, GuardedRun.run (step call) [] ops = some sets ∧
        ∀ (i : Nat) (s : SetPrv) (a : Nat × Set Nat), sets[i]? = some s →
          (ops.foldl (classes call).apply [])[i]? = some a → Is call s a := by
  intro hall
  let ops : List SetOp := .new 0 :: (List.range' 0 (2 ^ 31)).map (SetOp.add 0)
  have hok : GuardedRun.AllOk (listStep sameParity) PlacesOk [] ops := by
    refine ⟨trivial, fun t ht => ?_⟩
    obtain rfl := Option.some.inj ht
    exact placesOk_additions (2 ^ 31) 0
  obtain ⟨sets, hrun, -⟩ := hall sameParity ops sameParity_equivalences hok
  have hruns := (run_spec sameParity_equivalences ops hok).1.mp ⟨sets, hrun⟩
  have hfits := fits_additions (Nat.two_pow_pos 31) (hruns.2 _ rfl)
  exact absurd hfits (by simp)

end SetPrv

end AutoGentoo
