import AutoGentoo.GuardedRun
import AutoGentoo.Representatives
import AutoGentoo.SetPrv
import AutoGentoo.VectorRefinement

/-! Sets as sets of what is equal to one of their elements, when the functions they are
made with tell an equivalence. -/

namespace AutoGentoo

open Representatives

namespace SetPrv

def Equivalences (call : Nat → Nat → Nat → Int) : Prop :=
  ∀ cmpFunc, cmpFunc ≠ 0 → Equivalence fun x y => call cmpFunc x y = 0

/-- The function of a set and its elements, no two of which are equal. -/
structure Holds (call : Nat → Nat → Nat → Int) (cmpFunc : Nat) (set : SetPrv) (l : List Nat) : Prop where
  cmp : set.cmpFunc = cmpFunc
  parent : set.parent.Holds l
  opts : set.parent.opts = 0
  distinct : Distinct (Equal call cmpFunc) l

variable {call : Nat → Nat → Nat → Int} {self : SetPrv} {c : Nat} {l : List Nat}

theorem equal_equivalence (hcall : Equivalences call) (c : Nat) : Equivalence (Equal call c) := by
  unfold Equal
  split_ifs with hzero
  · exact ⟨fun _ => rfl, Eq.symm, Eq.trans⟩
  · exact hcall c hzero

theorem holds_new (call : Nat → Nat → Nat → Int) (c : Nat) : Holds call c (setNew c) [] :=
  ⟨rfl, Vector.holds_new vectorUnordered, rfl, List.Pairwise.nil⟩

theorem Holds.searches (h : Holds call c self l) (x : Nat) :
    Searches (self.setInsideFrom call x) l (Equal call c x) (fun index _ => some (index : Int)) (some (-1)) := by
  have hturn : ∀ front y back count, l = front ++ y :: back → self.setInsideFrom call x (count + 1) front.length =
      if Equal call c x y then some (front.length : Int) else self.setInsideFrom call x count (front.length + 1) := by
    rintro front y back count rfl
    rw [setInsideFrom, setGet, h.parent.get, Option.bind_some, h.cmp]
  exact ⟨fun _ => rfl, fun front y back count hl hxy => (hturn front y back count hl).trans (if_pos hxy),
    fun front y back count hl hxy => (hturn front y back count hl).trans (if_neg hxy)⟩

theorem Holds.not_inside (h : Holds call c self l) {x : Nat} (hx : ¬ Inside (Equal call c) l x) :
    self.setInside call x = some (-1) := by
  rw [setInside, h.parent.n]
  exact (h.searches x).none fun y hy hxy => hx ⟨y, hy, hxy⟩

/-- The index is that of the first element that is equal. -/
theorem Holds.inside (h : Holds call c self l) {x : Nat} (hx : Inside (Equal call c) l x) :
    ∃ front y back, l = front ++ y :: back ∧ Equal call c x y ∧ (∀ z ∈ front, ¬ Equal call c x z) ∧
      self.setInside call x = some (front.length : Int) := by
  cases hfind : l.find? fun y => Equal call c x y with
  | none =>
    obtain ⟨y, hy, hxy⟩ := hx
    exact absurd hxy (by simpa using List.find?_eq_none.mp hfind y hy)
  | some y =>
    obtain ⟨hxy, front, back, rfl, hfront⟩ := List.find?_eq_some_iff_append.mp hfind
    have hfirst : ∀ z ∈ front, ¬ Equal call c x z := fun z hz => by simpa using hfront z hz
    refine ⟨front, y, back, rfl, of_decide_eq_true hxy, hfirst, ?_⟩
    rw [setInside, h.parent.n]
    exact (h.searches x).first (of_decide_eq_true hxy) hfirst

theorem Holds.setInside_iff (h : Holds call c self l) (x : Nat) :
    ∃ index, self.setInside call x = some index ∧ (index ≠ -1 ↔ Inside (Equal call c) l x) := by
  by_cases hx : Inside (Equal call c) l x
  · obtain ⟨front, -, -, -, -, -, hindex⟩ := h.inside hx
    exact ⟨front.length, hindex, iff_of_true (by omega) hx⟩
  · exact ⟨-1, h.not_inside hx, iff_of_false (by simp) hx⟩

theorem setAdd_spec (hcall : Equivalences call) (h : Holds call c self l) {x : Nat}
    (hfits : (insert (Equal call c) l x).length < 2 ^ 31) :
    ∃ added after, self.setAdd call x = some (added, after) ∧
      Holds call c after (insert (Equal call c) l x) := by
  by_cases hx : Inside (Equal call c) l x
  · obtain ⟨front, -, -, -, -, -, hindex⟩ := h.inside hx
    refine ⟨0, self, ?_, by rwa [insert_of_inside hx]⟩
    rw [setAdd, hindex, Option.bind_some, if_neg (by omega)]
  · have hlen := hfits
    rw [insert_of_not_inside hx, List.length_append, List.length_singleton] at hlen
    obtain ⟨v, hadd, hv, hopts⟩ := Vector.vectorAdd_spec h.parent hlen x
    refine ⟨1, { self with parent := v }, ?_, h.cmp, ?_, hopts.trans h.opts,
      h.distinct.insert (equal_equivalence hcall c) x⟩
    · rw [setAdd, h.not_inside hx, Option.bind_some, if_pos rfl, hadd]
      rfl
    · rwa [insert_of_not_inside hx]

theorem setAdd_full (h : Holds call c self l) (hl : l.length < 2 ^ 31) {x : Nat}
    (hfull : ¬ (insert (Equal call c) l x).length < 2 ^ 31) : self.setAdd call x = none := by
  by_cases hx : Inside (Equal call c) l x
  · rw [insert_of_inside hx] at hfull
    exact absurd hl hfull
  · rw [insert_of_not_inside hx, List.length_append, List.length_singleton] at hfull
    rw [setAdd, h.not_inside hx, Option.bind_some, if_pos rfl,
      Vector.vectorAdd_full h.parent (Nat.le_of_not_lt hfull)]
    rfl

theorem setRemove_spec (h : Holds call c self l) (x : Nat) :
    ∃ out after, self.setRemove call x = some (out, after) ∧
      Holds call c after (erase (Equal call c) l x) := by
  by_cases hx : Inside (Equal call c) l x
  · obtain ⟨front, y, back, rfl, hxy, hfirst, hindex⟩ := h.inside hx
    obtain ⟨v, hremove, hv, hopts⟩ := Vector.vectorRemove_spec h.parent (by rw [h.opts]; rfl)
    have herase : erase (Equal call c) (front ++ y :: back) x = front ++ back := by
      rw [erase, List.eraseP_append_right _ (by simpa using hfirst), List.eraseP_cons_of_pos (by simpa using hxy)]
    refine ⟨y, { self with parent := v }, ?_, h.cmp, by rwa [herase], hopts.trans h.opts, h.distinct.erase x⟩
    rw [setRemove, hindex, Option.bind_some, if_neg (by omega), Int.toNat_natCast, hremove]
    rfl
  · have herase : erase (Equal call c) l x = l :=
      List.eraseP_of_forall_not fun y hy hxy => hx ⟨y, hy, of_decide_eq_true hxy⟩
    refine ⟨0, self, ?_, by rwa [herase]⟩
    rw [setRemove, h.not_inside hx, Option.bind_some, if_pos rfl]

/-- `set_add` of one element after the other. -/
def addEach (call : Nat → Nat → Nat → Int) (out : SetPrv) (elements : List Nat) : Option SetPrv :=
  elements.foldlM (fun out element => (out.setAdd call element).map Prod.snd) out

theorem addEach_cons (out : SetPrv) (x : Nat) (elements : List Nat) :
    addEach call out (x :: elements) =
      ((out.setAdd call x).map Prod.snd).bind fun out => addEach call out elements := List.foldlM_cons

theorem addEach_spec (hcall : Equivalences call) (h : Holds call c self l) (elements : List Nat)
    (hdistinct : Distinct (Equal call c) (l ++ elements)) (hfits : (l ++ elements).length < 2 ^ 31) :
    ∃ after, addEach call self elements = some after ∧ Holds call c after (l ++ elements) := by
  induction elements generalizing self l with
  | nil => exact ⟨self, rfl, by rwa [List.append_nil]⟩
  | cons x elements ih =>
    have hx : insert (Equal call c) l x = l ++ [x] := insert_of_distinct (equal_equivalence hcall c) hdistinct
    have hassoc : l ++ x :: elements = (l ++ [x]) ++ elements := by rw [List.append_assoc]; rfl
    rw [hassoc] at hdistinct hfits ⊢
    have hlen : (insert (Equal call c) l x).length < 2 ^ 31 := by
      rw [hx]
      simp only [List.length_append] at hfits ⊢
      omega
    obtain ⟨added, mid, hadd, hmid⟩ := setAdd_spec hcall h hlen
    rw [hx] at hmid
    obtain ⟨after, hrest, hafter⟩ := ih hmid hdistinct hfits
    exact ⟨after, by rw [addEach_cons, hadd]; exact hrest, hafter⟩

theorem setDup_spec (hcall : Equivalences call) (h : Holds call c self l) (hl : l.length < 2 ^ 31) :
    ∃ out, self.setDup call = some out ∧ Holds call c out l := by
  obtain ⟨out, hout, hspec⟩ := addEach_spec hcall (holds_new call c) l h.distinct hl
  rw [← h.cmp] at hout
  exact ⟨out, (h.parent.foldlM_get _ _).trans hout, hspec⟩

theorem intersectLoop_spec (hcall : Equivalences call) {other : SetPrv} {l' : List Nat}
    (h : Holds call c self l) (h' : Holds call c other l') (hl : l.length < 2 ^ 31) :
    ∃ out, self.intersectLoop call other (setNew c) = some out ∧
      Holds call c out (inter (Equal call c) l l') := by
  have hloop : ∀ (elements : List Nat) (out : SetPrv), elements.foldlM (fun out element =>
      (other.setInside call element).bind fun index =>
        if index ≠ -1 then (out.setAdd call element).map Prod.snd else some out) out =
      addEach call out (inter (Equal call c) elements l') := by
    intro elements
    induction elements with
    | nil => exact fun out => rfl
    | cons x elements ih =>
      intro out
      obtain ⟨index, hindex, hinside⟩ := h'.setInside_iff x
      rw [List.foldlM_cons, hindex, Option.bind_some, inter, List.filter_cons]
      by_cases hx : Inside (Equal call c) l' x
      · rw [if_pos (hinside.mpr hx), if_pos (decide_eq_true hx), addEach_cons]
        exact bind_congr fun out => ih out
      · rw [if_neg (mt hinside.mp hx), if_neg (by simpa using hx)]
        exact ih out
  have hle : (inter (Equal call c) l l').length ≤ l.length := List.length_filter_le _ l
  obtain ⟨out, hout, hspec⟩ := addEach_spec hcall (holds_new call c) (inter (Equal call c) l l')
    (h.distinct.inter l') (Nat.lt_of_le_of_lt hle hl)
  exact ⟨out, (h.parent.foldlM_get _ _).trans ((hloop l (setNew c)).trans hout), hspec⟩

/-- The elements come from the larger of the two sets, from the second if neither is. -/
def interLarger (call : Nat → Nat → Nat → Int) (c : Nat) (l l' : List Nat) : List Nat :=
  if l'.length < l.length then inter (Equal call c) l l' else inter (Equal call c) l' l

theorem carrier_interLarger (hcall : Equivalences call) (c : Nat) (l l' : List Nat) :
    carrier (Equal call c) (interLarger call c l l') =
      carrier (Equal call c) l ∩ carrier (Equal call c) l' := by
  have heq := equal_equivalence hcall c
  rw [interLarger]
  split_ifs
  · exact carrier_inter heq l l'
  · rw [carrier_inter heq, Set.inter_comm]

theorem setIntersect_spec (hcall : Equivalences call) {other : SetPrv} {l' : List Nat}
    (h : Holds call c self l) (h' : Holds call c other l') (hl : l.length < 2 ^ 31)
    (hl' : l'.length < 2 ^ 31) :
    ∃ out, setIntersect call self other = some (some out) ∧ Holds call c out (interLarger call c l l') := by
  have hsame : ¬ self.cmpFunc ≠ other.cmpFunc := not_not.mpr (h.cmp.trans h'.cmp.symm)
  rw [setIntersect, if_neg hsame, h.parent.n, h'.parent.n, h.cmp, interLarger]
  split_ifs
  · obtain ⟨out, hout, hspec⟩ := intersectLoop_spec hcall h h' hl
    exact ⟨out, by rw [hout]; rfl, hspec⟩
  · obtain ⟨out, hout, hspec⟩ := intersectLoop_spec hcall h' h hl'
    exact ⟨out, by rw [hout]; rfl, hspec⟩

end SetPrv

end AutoGentoo
