import AutoGentoo.RequiredUseHook

/-! The counts of the hook against the meaning of REQUIRED_USE. -/

namespace AutoGentoo

namespace UseTree

/-- Flags and conditionals name a flag, operators have children. -/
def itemProper (name : Option (List Char)) (literal : Bool) : UseOperator → Prop
  | .disable | .enable => name ≠ none
  | .leastOne | .exactOne | .mostOne => literal = false

def Proper : UseTree → Prop
  | null => True
  | node name option depend next =>
    itemProper name depend.isNull option ∧ depend.Proper ∧ next.Proper

def names : UseTree → List (List Char)
  | null => []
  | node name _ depend next => name.toList ++ depend.names ++ next.names

/-- The meaning of one item, of the state of its flag and its children; a
conditional whose flag is not as asked is worth `inactive`. -/
def itemTruth (inactive state : Bool) (option : UseOperator) (literal : Bool)
    (children : List Bool) : Bool :=
  match option with
  | .disable => if literal then !state else if state then inactive else children.all id
  | .enable => if literal then state else if state then children.all id else inactive
  | .leastOne => children.any id
  | .exactOne => children.count true = 1
  | .mostOne => children.count true ≤ 1

def truths (inactive : Bool) (σ : Option (List Char) → Bool) : UseTree → List Bool
  | null => []
  | node name option depend next =>
    itemTruth inactive (σ name) option depend.isNull (depend.truths inactive σ) ::
      next.truths inactive σ

/-- The standard meaning is the one where `inactive` is true. -/
def Holds (inactive : Bool) (σ : Option (List Char) → Bool) (self : UseTree) : Prop :=
  (self.truths inactive σ).all id = true

/-- The flag of a conditional is as it asks. -/
def asked (state : Bool) : UseOperator → Bool
  | .disable => !state
  | .enable => state
  | _ => true

/-- Every conditional is active. -/
def Active (σ : Option (List Char) → Bool) : UseTree → Prop
  | null => True
  | node name option depend next =>
    (depend.isNull = false → asked (σ name) option = true) ∧ depend.Active σ ∧ next.Active σ

theorem itemTruth_asked {state literal : Bool} {option : UseOperator} {children : List Bool}
    (h : literal = false → asked state option = true) :
    itemTruth true state option literal children = itemTruth false state option literal children := by
  cases literal with
  | true => cases option <;> rfl
  | false =>
    have hs := h rfl
    cases option <;> simp_all [itemTruth, asked]

theorem truths_of_active {σ : Option (List Char) → Bool} {t : UseTree} (h : t.Active σ) :
    t.truths true σ = t.truths false σ := by
  induction t with
  | null => rfl
  | node name option depend next ihd ihn =>
    obtain ⟨ha, hd, hn⟩ := h
    rw [truths, truths, ihd hd, ihn hn, itemTruth_asked ha]

/-- The list has a conditional that is not active. -/
def HasInactive (σ : Option (List Char) → Bool) : UseTree → Prop
  | null => False
  | node name option depend next =>
    depend.isNull = false ∧ asked (σ name) option = false ∨ next.HasInactive σ

theorem not_holds_of_hasInactive {σ : Option (List Char) → Bool} {t : UseTree}
    (h : t.HasInactive σ) : ¬ t.Holds false σ := by
  induction t with
  | null => exact h.elim
  | node name option depend next _ ihn =>
    rw [Holds, truths, List.all_cons, Bool.and_eq_true]
    rintro ⟨hi, hn⟩
    rcases h with ⟨hl, ha⟩ | h
    · rw [hl] at hi
      cases option <;> simp_all [itemTruth, asked]
    · exact ihn h hn

end UseTree

namespace UseFlags

/-- The state of a flag that is there. -/
def state (self : UseFlags) (name : Option (List Char)) : Bool :=
  match self.getUse name with
  | .ok flag => flag.state
  | .error _ => false

theorem getUse_of_hasUse {self : UseFlags} {name : List Char} (h : self.hasUse name = true) :
    ∃ flag, self.getUse (some name) = .ok flag ∧ self.state (some name) = flag.state := by
  have hget : ∃ flag, self.getUse (some name) = .ok flag := by
    simp only [getUse]
    cases hu : Dict.get self.useflags name with
    | some flag => exact ⟨flag, rfl⟩
    | none =>
      cases hi : Dict.get self.iuse name with
      | some flag => exact ⟨flag, rfl⟩
      | none => simp [hasUse, Dict.has, hu, hi] at h
  obtain ⟨flag, hflag⟩ := hget
  exact ⟨flag, hflag, by rw [state, hflag]⟩

end UseFlags

namespace Evaluation

theorem judge_counts (acc child : Evaluation) (ok : Bool) (operator : SuggestionOperator) :
    (acc.judge child ok operator).numTrue = acc.numTrue + ok.toNat ∧
      (acc.judge child ok operator).total = acc.total := by
  cases ok <;> exact ⟨rfl, rfl⟩

/-- The evaluation of a list gave the counts of these truth values. -/
def Counts (truths : List Bool) (child : Except PyError Evaluation) : Prop :=
  ∃ c, child = .ok c ∧ c.numTrue = truths.count true ∧ c.total = truths.length

theorem count_eq_length_iff (truths : List Bool) :
    truths.count true = truths.length ↔ truths.all id = true := by
  rw [List.count_eq_length, List.all_eq_true]
  exact ⟨fun h b hb => (h b hb).symm, fun h b hb => (h b hb).symm⟩

theorem any_eq_count (truths : List Bool) : truths.any id = decide (1 ≤ truths.count true) := by
  rw [Bool.eq_iff_iff, decide_eq_true_eq, Nat.one_le_iff_ne_zero, ← Nat.pos_iff_ne_zero,
    List.count_pos_iff, List.any_eq_true]
  constructor
  · rintro ⟨b, hb, rfl⟩
    exact hb
  · intro h
    exact ⟨true, h, rfl⟩

theorem judgeFlag_counts (acc : Evaluation) (name : Option (List Char)) (state target : Bool)
    {literal : Bool} {child : Except PyError Evaluation} {truths : List Bool}
    (hchild : literal = false → Counts truths child) :
    ∃ r, acc.judgeFlag name state target literal child = .ok r ∧
      r.numTrue = acc.numTrue + ((state == target) && (literal || truths.all id)).toNat ∧
      r.total = acc.total := by
  cases hs : state == target with
  | false =>
    refine ⟨acc.suggest (.use name (!state)), ?_, rfl, rfl⟩
    simp [judgeFlag, hs]
  | true =>
    cases literal with
    | true => exact ⟨acc.pass, by simp [judgeFlag, hs], rfl, rfl⟩
    | false =>
      obtain ⟨c, hc, hk, hn⟩ := hchild rfl
      have hall : c.numTrue = c.total ↔ truths.all id = true := by
        rw [hk, hn, count_eq_length_iff]
      rw [judgeFlag, hs, hc]
      by_cases he : c.numTrue = c.total
      · refine ⟨acc.pass, congrArg Except.ok (if_pos he), ?_, rfl⟩
        rw [hall.mp he]
        rfl
      · refine ⟨_, congrArg Except.ok (if_neg he), ?_, rfl⟩
        rw [Bool.eq_false_iff.mpr fun h => he (hall.mpr h)]
        rfl

theorem turn_counts (acc : Evaluation) {flags : UseFlags} {name : Option (List Char)}
    {option : UseOperator} {literal : Bool} {child : Except PyError Evaluation}
    {truths : List Bool} (hchild : literal = false → Counts truths child)
    (hname : ∀ n ∈ name, flags.hasUse n = true)
    (hproper : UseTree.itemProper name literal option) :
    ∃ r, acc.turn flags name option literal child = .ok r ∧
      r.numTrue = acc.numTrue +
        (UseTree.itemTruth false (flags.state name) option literal truths).toNat ∧
      r.total = acc.total := by
  cases option with
  | disable | enable =>
    obtain ⟨n, rfl⟩ := Option.ne_none_iff_exists'.mp hproper
    obtain ⟨flag, hflag, hstate⟩ := UseFlags.getUse_of_hasUse (hname n rfl)
    rw [turn, hflag, hstate]
    obtain ⟨r, hr, hk, hn⟩ := judgeFlag_counts acc (some n) flag.state _ hchild
    refine ⟨r, hr, ?_, hn⟩
    rw [hk, UseTree.itemTruth]
    cases flag.state <;> cases literal <;> simp
  | leastOne =>
    obtain ⟨c, hc, hk, -⟩ := hchild hproper
    rw [turn, hc]
    refine ⟨_, rfl, ?_, (judge_counts ..).2⟩
    rw [(judge_counts ..).1, hk, UseTree.itemTruth, any_eq_count]
  | exactOne =>
    obtain ⟨c, hc, hk, -⟩ := hchild hproper
    rw [turn, hc]
    refine ⟨_, rfl, ?_, (judge_counts ..).2⟩
    rw [(judge_counts ..).1, hk, UseTree.itemTruth]
  | mostOne =>
    obtain ⟨c, hc, hk, -⟩ := hchild hproper
    rw [turn, hc]
    refine ⟨_, rfl, ?_, (judge_counts ..).2⟩
    rw [(judge_counts ..).1, hk, UseTree.itemTruth]

end Evaluation

variable {flags : UseFlags}

/-- The counts of a list are those of its truth values, with every conditional
that is not active counted as false. -/
theorem evaluateRequiredUse_eq {t : UseTree} (hp : t.Proper)
    (hnames : ∀ name ∈ t.names, flags.hasUse name = true) (acc : Evaluation) :
    ∃ r, evaluateRequiredUse flags t acc = .ok r ∧
      r.numTrue = acc.numTrue + (t.truths false flags.state).count true ∧
      r.total = acc.total + (t.truths false flags.state).length := by
  induction t generalizing acc with
  | null => exact ⟨acc, rfl, rfl, rfl⟩
  | node name option depend next ihd ihn =>
    obtain ⟨hitem, hd, hn⟩ := hp
    simp only [UseTree.names, List.mem_append] at hnames
    obtain ⟨c, hc, hck, hcn⟩ := ihd hd (fun n h => hnames n (.inl (.inr h))) .start
    have hcount : depend.isNull = false → Evaluation.Counts (depend.truths false flags.state)
        (if depend.isNull then .error .typeError else evaluateRequiredUse flags depend .start) := by
      intro hl
      refine ⟨c, by rw [hl, ← hc]; rfl, hck.trans (Nat.zero_add _), hcn.trans (Nat.zero_add _)⟩
    obtain ⟨r, hr, hrk, hrn⟩ := acc.count.turn_counts hcount
      (fun n hm => hnames n (.inl (.inl (Option.mem_toList.mpr hm)))) hitem
    obtain ⟨r', hr', hk', hn'⟩ := ihn hn (fun n h => hnames n (.inr h)) r
    have hcons (b : Bool) : b.toNat = if b == true then 1 else 0 := by cases b <;> rfl
    refine ⟨r', ?_, ?_, ?_⟩
    · rw [evaluateRequiredUse, hr]
      exact hr'
    · rw [hk', hrk, UseTree.truths, List.count_cons, hcons, Nat.add_right_comm, Nat.add_assoc]
      rfl
    · rw [hn', hrn, UseTree.truths, List.length_cons, Evaluation.count, Nat.add_right_comm,
        Nat.add_assoc]

namespace RequiredUseHook

/-- The hook raises exactly when the expression is false with every conditional
that is not active counted as false. -/
theorem runHook_raises_iff {e : UseTree} (hp : e.Proper) (hne : e.isNull = false)
    (hnames : ∀ name ∈ e.names, flags.hasUse name = true) :
    (∃ s, runHook flags e = .error (.requiredUse s)) ↔ ¬ e.Holds false flags.state := by
  obtain ⟨r, hr, hk, hn⟩ := evaluateRequiredUse_eq hp hnames .start
  have hall : e.Holds false flags.state ↔ r.numTrue = r.total := by
    rw [hk, hn, UseTree.Holds]
    show _ ↔ 0 + _ = 0 + _
    rw [Nat.zero_add, Nat.zero_add, Evaluation.count_eq_length_iff]
  rw [hall, runHook, hne, hr]
  by_cases he : r.numTrue = r.total
  · simp [Except.bind, he]
  · simp [Except.bind, he]

/-- Where every conditional is active the hook does as it should. -/
theorem runHook_of_active {e : UseTree} (hp : e.Proper) (hne : e.isNull = false)
    (hnames : ∀ name ∈ e.names, flags.hasUse name = true) (ha : e.Active flags.state) :
    (∃ s, runHook flags e = .error (.requiredUse s)) ↔ ¬ e.Holds true flags.state := by
  rw [runHook_raises_iff hp hne hnames, UseTree.Holds, UseTree.Holds, UseTree.truths_of_active ha]

/-- A conditional that is not active, outside of any other, always raises. -/
theorem runHook_of_hasInactive {e : UseTree} (hp : e.Proper) (hne : e.isNull = false)
    (hnames : ∀ name ∈ e.names, flags.hasUse name = true) (hi : e.HasInactive flags.state) :
    ∃ s, runHook flags e = .error (.requiredUse s) :=
  (runHook_raises_iff hp hne hnames).mpr (UseTree.not_holds_of_hasInactive hi)

/-- The hook raises just on the false expressions exactly when it does not
matter that conditionals whose flag is not as asked are counted as false. -/
theorem runHook_standard_iff {e : UseTree} (hp : e.Proper) (hne : e.isNull = false)
    (hnames : ∀ name ∈ e.names, flags.hasUse name = true) :
    ((∃ s, runHook flags e = .error (.requiredUse s)) ↔ ¬ e.Holds true flags.state) ↔
      (e.Holds true flags.state ↔ e.Holds false flags.state) := by
  rw [runHook_raises_iff hp hne hnames]
  tauto

/-- `a? ( b )` -/
def conditional : UseTree :=
  .node (some ['a']) .enable (.node (some ['b']) .enable .null .null) .null

def flagsOf (a b : Bool) : UseFlags where
  useflags := []
  iuse := [(['a'], { name := ['a'], state := a }), (['b'], { name := ['b'], state := b })]

theorem runHook_standard_conditional :
    ((∃ s, runHook (flagsOf true false) conditional = .error (.requiredUse s)) ↔
        ¬ conditional.Holds true (flagsOf true false).state) ↔
      (conditional.Holds true (flagsOf true false).state ↔
        conditional.Holds false (flagsOf true false).state) :=
  runHook_standard_iff (by simp [conditional, UseTree.Proper, UseTree.itemProper]) rfl (by decide)

/-- With `a` off, `a? ( b )` asks for nothing and is refused. -/
theorem conditional_off_raises :
    conditional.Holds true (flagsOf false false).state ∧
      ∃ s, runHook (flagsOf false false) conditional = .error (.requiredUse s) := by
  refine ⟨?_, .expression .and [.use (some ['a']) true], rfl⟩
  rw [UseTree.Holds]
  decide

end RequiredUseHook

end AutoGentoo
