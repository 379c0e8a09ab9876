import AutoGentoo.RequiredUseMeaning

/-! What the suggestion of a failed REQUIRED_USE asks for, and when it can be
followed. -/

namespace AutoGentoo

namespace SuggestionOperator

def judges : SuggestionOperator → List Bool → Bool
  | leastOne, parts => parts.any id
  | exactOne, parts => parts.count true = 1
  | mostOne, parts => parts.count true ≤ 1
  | and, parts => parts.all id

end SuggestionOperator

namespace Suggestion

mutual

/-- Flags with these states do what is suggested. -/
def holds (σ : Option (List Char) → Bool) : Suggestion → Bool
  | use useName value => σ useName == value
  | expression operator suggestions => operator.judges (eachHolds σ suggestions)

def eachHolds (σ : Option (List Char) → Bool) : List Suggestion → List Bool
  | [] => []
  | s :: suggestions => s.holds σ :: eachHolds σ suggestions

end

mutual

/-- The flags it names. -/
def names : Suggestion → List (Option (List Char))
  | use useName _ => [useName]
  | expression _ suggestions => allNames suggestions

def allNames : List Suggestion → List (Option (List Char))
  | [] => []
  | s :: suggestions => s.names ++ allNames suggestions

end

theorem eachHolds_append (σ : Option (List Char) → Bool) (l l' : List Suggestion) :
    eachHolds σ (l ++ l') = eachHolds σ l ++ eachHolds σ l' := by
  induction l with
  | nil => rfl
  | cons s l ih => rw [List.cons_append, eachHolds, ih, eachHolds, List.cons_append]

theorem allNames_append (l l' : List Suggestion) : allNames (l ++ l') = allNames l ++ allNames l' := by
  induction l with
  | nil => rfl
  | cons s l ih => rw [List.cons_append, allNames, ih, allNames, List.append_assoc]

/-- Some change of the flags it names makes it hold together with a condition. -/
def Followable (self : Suggestion) (truth : (Option (List Char) → Bool) → Prop)
    (σ : Option (List Char) → Bool) : Prop :=
  ∃ ρ, (∀ name, name ∉ self.names → ρ name = σ name) ∧ self.holds ρ = true ∧ truth ρ

end Suggestion

namespace UseTree

/-- What has to become of an item that is false, in states `ρ` that follow `σ`,
of the members that are: a flag, or the condition of a conditional that does not
apply, is as asked; a conditional that applies does so no longer, or all its false
members are turned; of the false members of a group as many are turned as it says. -/
def itemTurn (state next : Bool) (option : UseOperator) (literal : Bool)
    (members : List Bool) : Bool :=
  match option with
  | .disable | .enable =>
    if literal || !asked state option then asked next option
    else !asked next option || members.all id
  | .leastOne => members.any id
  | .exactOne => members.count true = 1
  | .mostOne => members.count true ≤ 1

/-- The items of the list that are false, each with whether it is turned. -/
def turns (σ ρ : Option (List Char) → Bool) : UseTree → List Bool
  | null => []
  | node name option depend next =>
    (if itemTruth false (σ name) option depend.isNull (depend.truths false σ) then []
      else [itemTurn (σ name) (ρ name) option depend.isNull (depend.turns σ ρ)]) ++ next.turns σ ρ

def itemBlame (name : Option (List Char)) (state : Bool) (option : UseOperator) (literal : Bool)
    (members : List (Option (List Char))) : List (Option (List Char)) :=
  match option with
  | .disable | .enable => if literal || !asked state option then [name] else name :: members
  | .leastOne | .exactOne | .mostOne => members

/-- The flags of the false items, and of the false members inside of them. -/
def blamed (σ : Option (List Char) → Bool) : UseTree → List (Option (List Char))
  | null => []
  | node name option depend next =>
    (if itemTruth false (σ name) option depend.isNull (depend.truths false σ) then []
      else itemBlame name (σ name) option depend.isNull (depend.blamed σ)) ++ next.blamed σ

/-- It has no group that limits its members. -/
def Unlimited : UseTree → Prop
  | null => True
  | node _ option depend next =>
    (option ≠ .exactOne ∧ option ≠ .mostOne) ∧ depend.Unlimited ∧ next.Unlimited

theorem itemTurn_of_truth {state : Bool} (next : Bool) {option : UseOperator} {literal : Bool}
    {before after members : List Bool} (hlimit : option ≠ .exactOne ∧ option ≠ .mostOne)
    (hactive : literal = false → asked state option = true)
    (hall : after.all id = true → members.all id = true)
    (hany : before.any id = false → after.any id = true → members.any id = true)
    (hfalse : itemTruth false state option literal before = false)
    (htrue : itemTruth true next option literal after = true) :
    itemTurn state next option literal members = true := by
  cases option with
  | disable | enable =>
    cases literal with
    | true => simpa [itemTurn, itemTruth, asked] using htrue
    | false =>
      have ha := hactive rfl
      cases next <;> simp_all [itemTurn, itemTruth, asked]
  | leastOne => exact hany hfalse htrue
  | exactOne => exact absurd rfl hlimit.1
  | mostOne => exact absurd rfl hlimit.2

/-- There, an assignment that makes the list true turns all of its false items. -/
theorem turns_of_truths {σ ρ : Option (List Char) → Bool} {t : UseTree} (hlimit : t.Unlimited)
    (hactive : t.Active σ) :
    ((t.truths true ρ).all id = true → (t.turns σ ρ).all id = true) ∧
      ((t.truths false σ).any id = false → (t.truths true ρ).any id = true →
        (t.turns σ ρ).any id = true) := by
  induction t with
  | null => exact ⟨fun _ => rfl, fun _ h => absurd h (by simp [truths])⟩
  | node name option depend next ihd ihn =>
    obtain ⟨hitem, hd, hn⟩ := hlimit
    obtain ⟨ha, had, han⟩ := hactive
    obtain ⟨hall, hany⟩ := ihd hd had
    have hturn := itemTurn_of_truth (ρ name) hitem ha hall hany
    constructor
    · rw [truths, List.all_cons, Bool.and_eq_true, turns, List.all_append, Bool.and_eq_true]
      rintro ⟨htrue, hrest⟩
      refine ⟨?_, (ihn hn han).1 hrest⟩
      cases hfalse : itemTruth false (σ name) option depend.isNull (depend.truths false σ) with
      | true => rfl
      | false =>
        rw [if_neg (by simp), List.all_cons, List.all_nil, Bool.and_true]
        exact hturn hfalse htrue
    · rw [truths, truths, List.any_cons, List.any_cons, Bool.or_eq_false_iff, Bool.or_eq_true, turns,
        List.any_append, Bool.or_eq_true]
      rintro ⟨hfalse, hrest⟩ (htrue | htrue)
      · left
        rw [id] at hfalse
        rw [hfalse, if_neg (by simp), List.any_cons, List.any_nil, Bool.or_false]
        exact hturn hfalse htrue
      · exact .inr ((ihn hn han).2 hrest htrue)

/-- The expression can be made true by flags of its false items alone, each of
which is turned. -/
def Repairable (inactive : Bool) (σ : Option (List Char) → Bool) (self : UseTree) : Prop :=
  ∃ ρ, (∀ name, name ∉ self.blamed σ → ρ name = σ name) ∧ (self.turns σ ρ).all id = true ∧
    self.Holds inactive ρ

end UseTree

theorem map_ok {α β : Type} {f : α → β} {c : Except PyError α} {b : β} (h : c.map f = .ok b) :
    ∃ a, c = .ok a ∧ f a = b := by
  cases c with
  | error e => exact absurd h (by simp [Except.map])
  | ok a => exact ⟨a, rfl, Except.ok.inj h⟩

namespace UseTree

/-- Where all conditionals apply and no group limits its members, it is enough that
flags of the false items can make the expression true. -/
theorem repairable_of_unlimited {σ : Option (List Char) → Bool} {t : UseTree} (hlimit : t.Unlimited)
    (hactive : t.Active σ) : t.Repairable true σ ↔
      ∃ ρ, (∀ name, name ∉ t.blamed σ → ρ name = σ name) ∧ t.Holds true ρ := by
  constructor
  · rintro ⟨ρ, hblame, -, hholds⟩
    exact ⟨ρ, hblame, hholds⟩
  · rintro ⟨ρ, hblame, hholds⟩
    exact ⟨ρ, hblame, (turns_of_truths hlimit hactive).1 hholds, hholds⟩

theorem turns_of_all_true {σ ρ : Option (List Char) → Bool} {t : UseTree}
    (h : (t.truths false σ).all id = true) : t.turns σ ρ = [] := by
  induction t with
  | null => rfl
  | node name option depend next _ ihn =>
    rw [truths, List.all_cons, Bool.and_eq_true] at h
    rw [turns, ihn h.2, List.append_nil]
    exact if_pos h.1

/-- A group of exactly one that has all of its members true, and more than one,
leaves nothing to follow. -/
theorem not_repairable_of_full {inactive : Bool} {σ : Option (List Char) → Bool}
    {name : Option (List Char)} {depend next : UseTree}
    (hall : (depend.truths false σ).all id = true) (hmore : (depend.truths false σ).length ≠ 1) :
    ¬ (node name .exactOne depend next).Repairable inactive σ := by
  rintro ⟨ρ, -, hturns, -⟩
  have hcount : (depend.truths false σ).count true = (depend.truths false σ).length :=
    (Evaluation.count_eq_length_iff _).mpr hall
  have hfalse : itemTruth false (σ name) .exactOne depend.isNull (depend.truths false σ) = false := by
    rw [itemTruth, hcount]
    exact decide_eq_false hmore
  rw [turns, hfalse, if_neg (by simp), turns_of_all_true hall, List.all_append, Bool.and_eq_true] at hturns
  exact absurd hturns.1 (by simp [itemTurn])

end UseTree

namespace Evaluation

/-- What a loop adds to its variables: the truth of the items, and for those that
are false what their suggestions ask for. -/
structure Adds (ρ : Option (List Char) → Bool) (truths turns : List Bool)
    (blame : List (Option (List Char))) (acc r : Evaluation) : Prop where
  numTrue : r.numTrue = acc.numTrue + truths.count true
  total : r.total = acc.total + truths.length
  turns : Suggestion.eachHolds ρ r.suggestions = Suggestion.eachHolds ρ acc.suggestions ++ turns
  blame : Suggestion.allNames r.suggestions = Suggestion.allNames acc.suggestions ++ blame

variable {ρ : Option (List Char) → Bool}

theorem adds_refl (acc : Evaluation) : Adds ρ [] [] [] acc acc :=
  ⟨rfl, rfl, (List.append_nil _).symm, (List.append_nil _).symm⟩

theorem Adds.trans {truths truths' turns turns' : List Bool} {blame blame' : List (Option (List Char))}
    {a b c : Evaluation} (h : Adds ρ truths turns blame a b) (h' : Adds ρ truths' turns' blame' b c) :
    Adds ρ (truths ++ truths') (turns ++ turns') (blame ++ blame') a c where
  numTrue := by rw [h'.numTrue, h.numTrue, List.count_append, Nat.add_assoc]
  total := by rw [h'.total, h.total, List.length_append, Nat.add_assoc]
  turns := by rw [h'.turns, h.turns, List.append_assoc]
  blame := by rw [h'.blame, h.blame, List.append_assoc]

theorem pass_adds (acc : Evaluation) : Adds ρ [true] [] [] acc acc.count.pass :=
  ⟨rfl, rfl, (List.append_nil _).symm, (List.append_nil _).symm⟩

theorem suggest_adds (acc : Evaluation) (s : Suggestion) :
    Adds ρ [false] [s.holds ρ] s.names acc (acc.count.suggest s) where
  numTrue := rfl
  total := rfl
  turns := Suggestion.eachHolds_append ρ acc.suggestions [s]
  blame := by
    show Suggestion.allNames (acc.suggestions ++ [s]) = _
    rw [Suggestion.allNames_append, Suggestion.allNames, Suggestion.allNames, List.append_nil]

theorem Adds.start {truths turns : List Bool} {blame : List (Option (List Char))} {c : Evaluation}
    (h : Adds ρ truths turns blame start c) : c.numTrue = truths.count true ∧
      c.total = truths.length ∧ Suggestion.eachHolds ρ c.suggestions = turns ∧
      Suggestion.allNames c.suggestions = blame :=
  ⟨h.numTrue.trans (Nat.zero_add _), h.total.trans (Nat.zero_add _), h.turns, h.blame⟩

theorem judge_adds {truths turns : List Bool} {blame : List (Option (List Char))}
    (acc : Evaluation) {c : Evaluation} (h : Adds ρ truths turns blame start c) (ok : Bool)
    (operator : SuggestionOperator) :
    Adds ρ [ok] (if ok then [] else [operator.judges turns]) (if ok then [] else blame) acc
      (acc.count.judge c ok operator) := by
  cases ok with
  | true => exact pass_adds acc
  | false =>
    have hadds := suggest_adds (ρ := ρ) acc (.expression operator c.suggestions)
    rwa [Suggestion.holds, Suggestion.names, h.start.2.2.1, h.start.2.2.2] at hadds

theorem judgeFlag_adds {truths turns : List Bool} {blame : List (Option (List Char))}
    {acc r : Evaluation} {name : Option (List Char)} {state asks literal : Bool}
    {child : Except PyError Evaluation}
    (hchild : ∀ c, literal = false → child = .ok c → Adds ρ truths turns blame start c)
    (h : acc.count.judgeFlag name state asks literal child = .ok r) :
    let ok := (state == asks) && (literal || truths.all id)
    let flag := literal || !(state == asks)
    Adds ρ [ok]
      (if ok then [] else [if flag then ρ name == asks else !(ρ name == asks) || turns.all id])
      (if ok then [] else if flag then [name] else name :: blame) acc r := by
  cases hs : state == asks with
  | false =>
    have hne : (!state) = asks := by cases state <;> cases asks <;> simp_all
    simp only [judgeFlag, hs, Bool.and_false, Bool.false_eq_true, if_false, Except.ok.injEq] at h
    rw [← h, hne]
    simpa [Suggestion.holds, Suggestion.names] using suggest_adds (ρ := ρ) acc (.use name asks)
  | true =>
    cases literal with
    | true =>
      simp only [judgeFlag, hs, Bool.and_true, if_true, Except.ok.injEq] at h
      rw [← h]
      exact pass_adds acc
    | false =>
      cases hc : child with
      | error e => simp [judgeFlag, hs, hc, Except.map] at h
      | ok c =>
        have hadds := hchild c rfl hc
        have hall : c.numTrue = c.total ↔ truths.all id = true := by
          rw [hadds.start.1, hadds.start.2.1, count_eq_length_iff]
        simp only [judgeFlag, hs, hc, Bool.false_and, Bool.false_eq_true, if_false, if_true, Except.map,
          Except.ok.injEq] at h
        by_cases he : c.numTrue = c.total
        · rw [if_pos he] at h
          rw [← h, hall.mp he]
          exact pass_adds acc
        · rw [if_neg he] at h
          have hneg : (!state) = !asks := by rw [beq_iff_eq.mp hs]
          have hflip : (ρ name == !asks) = !(ρ name == asks) := by cases ρ name <;> cases asks <;> rfl
          have hsuggest := suggest_adds (ρ := ρ) acc
            (.expression .leastOne [.use name (!state), .expression .and c.suggestions])
          simp only [Suggestion.holds, Suggestion.eachHolds, SuggestionOperator.judges,
            Suggestion.names, Suggestion.allNames, hadds.start.2.2.1, hadds.start.2.2.2, hneg, hflip,
            List.any_cons, List.any_nil, Bool.or_false, id, List.append_nil, List.singleton_append]
            at hsuggest
          rw [← h, Bool.eq_false_iff.mpr fun h => he (hall.mpr h), hneg]
          simpa using hsuggest

theorem turn_adds {truths turns : List Bool} {blame : List (Option (List Char))} {flags : UseFlags}
    {acc r : Evaluation} {name : Option (List Char)} {option : UseOperator} {literal : Bool}
    {child : Except PyError Evaluation}
    (hchild : ∀ c, literal = false → child = .ok c → Adds ρ truths turns blame start c)
    (hliteral : literal = true → ∃ e, child = .error e)
    (h : acc.count.turn flags name option literal child = .ok r) :
    let ok := UseTree.itemTruth false (flags.state name) option literal truths
    Adds ρ [ok]
      (if ok then [] else [UseTree.itemTurn (flags.state name) (ρ name) option literal turns])
      (if ok then [] else UseTree.itemBlame name (flags.state name) option literal blame) acc r := by
  have hgroup : ∀ c, child = .ok c → Adds ρ truths turns blame start c := by
    intro c hc
    cases hl : literal with
    | true =>
      obtain ⟨e, he⟩ := hliteral hl
      exact absurd (he.symm.trans hc) (by simp)
    | false => exact hchild c hl hc
  cases option with
  | disable | enable =>
    rw [turn] at h
    cases hget : flags.getUse name with
    | error e => simp [hget, Except.bind] at h
    | ok flag =>
      have hstate : flags.state name = flag.state := by rw [UseFlags.state, hget]
      rw [hget] at h
      have hadds := judgeFlag_adds hchild h
      rw [hstate, UseTree.itemTruth, UseTree.itemTurn, UseTree.itemBlame]
      cases hs : flag.state <;> cases literal <;> cases hr : ρ name <;>
        simpa [UseTree.asked, hs, hr] using hadds
  | leastOne =>
    obtain ⟨c, hc, rfl⟩ := map_ok h
    have hany : truths.any id = decide (1 ≤ c.numTrue) := by
      rw [(hgroup c hc).start.1]
      exact any_eq_count truths
    rw [UseTree.itemTruth, hany]
    exact judge_adds acc (hgroup c hc) _ .leastOne
  | exactOne =>
    obtain ⟨c, hc, rfl⟩ := map_ok h
    rw [UseTree.itemTruth, ← (hgroup c hc).start.1]
    exact judge_adds acc (hgroup c hc) _ .exactOne
  | mostOne =>
    obtain ⟨c, hc, rfl⟩ := map_ok h
    rw [UseTree.itemTruth, ← (hgroup c hc).start.1]
    exact judge_adds acc (hgroup c hc) _ .mostOne

end Evaluation

variable {flags : UseFlags}

theorem turn_ok {c : Except PyError Evaluation} {f : Evaluation → Except PyError Evaluation}
    {r : Evaluation} (h : c.bind f = .ok r) : ∃ r', c = .ok r' ∧ f r' = .ok r := by
  cases c with
  | error e => exact absurd h (by simp [Except.bind])
  | ok r' => exact ⟨r', rfl, h⟩

theorem evaluateRequiredUse_adds (ρ : Option (List Char) → Bool) {t : UseTree} {acc r : Evaluation}
    (h : evaluateRequiredUse flags t acc = .ok r) :
    Evaluation.Adds ρ (t.truths false flags.state) (t.turns flags.state ρ) (t.blamed flags.state) acc r := by
  induction t generalizing acc r with
  | null =>
    obtain rfl := Except.ok.inj h
    exact Evaluation.adds_refl acc
  | node name option depend next ihd ihn =>
    rw [evaluateRequiredUse] at h
    obtain ⟨r', hturn, hnext⟩ := turn_ok h
    refine Evaluation.Adds.trans (Evaluation.turn_adds (fun c hl hc => ihd ?_) (fun hl => ?_) hturn)
      (ihn hnext)
    · rwa [if_neg (by simp [hl])] at hc
    · exact ⟨_, if_pos hl⟩

namespace Evaluation

/-- A turn that ends with an error has it from the lookup of a flag or from the
children. -/
theorem turn_error {acc : Evaluation} {name : Option (List Char)} {option : UseOperator}
    {literal : Bool} {child : Except PyError Evaluation} {e : PyError}
    (h : acc.turn flags name option literal child = .error e) :
    flags.getUse name = .error e ∨ child = .error e := by
  have hmap : ∀ {f : Evaluation → Evaluation}, child.map f = .error e → child = .error e := by
    intro f hf
    cases child with
    | error e' => exact congrArg _ (Except.error.inj hf)
    | ok c => exact absurd hf (by simp [Except.map])
  have hjudge : ∀ state asks, acc.judgeFlag name state asks literal child = .error e →
      child = .error e := by
    intro state asks hj
    rw [judgeFlag] at hj
    split_ifs at hj
    exact hmap hj
  cases option with
  | disable | enable =>
    rw [turn] at h
    cases hget : flags.getUse name with
    | error e' =>
      rw [hget] at h
      exact .inl (congrArg _ (Except.error.inj h))
    | ok flag =>
      rw [hget] at h
      exact .inr (hjudge _ _ h)
  | leastOne | exactOne | mostOne => exact .inr (hmap h)

end Evaluation

/-- Only the hook itself raises for REQUIRED_USE. -/
theorem evaluateRequiredUse_ne_requiredUse {t : UseTree} (acc : Evaluation) (s : Suggestion) :
    evaluateRequiredUse flags t acc ≠ .error (.requiredUse s) := by
  induction t generalizing acc with
  | null => simp [evaluateRequiredUse]
  | node name option depend next ihd ihn =>
    intro h
    rw [evaluateRequiredUse] at h
    cases hturn : acc.count.turn flags name option depend.isNull
        (if depend.isNull then .error .typeError else evaluateRequiredUse flags depend .start) with
    | ok r =>
      simp only [hturn] at h
      exact ihn r h
    | error e =>
      simp only [hturn] at h
      obtain rfl := Except.error.inj h
      rcases Evaluation.turn_error hturn with hget | hchild
      · unfold UseFlags.getUse at hget
        split at hget
        · simp at hget
        · split at hget
          · simp at hget
          · split at hget <;> simp at hget
      · split_ifs at hchild
        · simp at hchild
        · exact ihd _ hchild

namespace RequiredUseHook

theorem runHook_requiredUse {e : UseTree} {s : Suggestion}
    (h : runHook flags e = .error (.requiredUse s)) :
    ∃ g, evaluateRequiredUse flags e .start = .ok g ∧ s = .expression .and g.suggestions := by
  rw [runHook] at h
  split_ifs at h
  · simp at h
  · cases hg : evaluateRequiredUse flags e .start with
    | error e' =>
      rw [hg] at h
      exact absurd (hg.trans (congrArg _ (Except.error.inj h))) (evaluateRequiredUse_ne_requiredUse _ s)
    | ok g =>
      simp only [hg, Except.bind] at h
      split_ifs at h
      exact ⟨g, rfl, (PyError.requiredUse.inj (Except.error.inj h)).symm⟩

/-- The suggestion that is raised can be followed exactly when flags of the false
items can make the expression true while each of these is turned. -/
theorem runHook_followable_iff {e : UseTree} {s : Suggestion}
    (h : runHook flags e = .error (.requiredUse s)) (inactive : Bool) :
    ((∃ ρ, e.Holds inactive ρ) → s.Followable (e.Holds inactive) flags.state) ↔
      ((∃ ρ, e.Holds inactive ρ) → e.Repairable inactive flags.state) := by
  apply imp_congr_right
  intro _
  apply exists_congr
  intro ρ
  obtain ⟨g, hg, rfl⟩ := runHook_requiredUse h
  have hadds := (evaluateRequiredUse_adds ρ hg).start
  rw [Suggestion.names, Suggestion.holds, hadds.2.2.1, hadds.2.2.2, SuggestionOperator.judges]

/-- `a? ( b )` with `a` on and `b` off. -/
theorem runHook_followable_conditional :
    ((∃ ρ, conditional.Holds true ρ) →
        (Suggestion.expression .and [.expression .leastOne
          [.use (some ['a']) false, .expression .and [.use (some ['b']) true]]]).Followable
          (conditional.Holds true) (flagsOf true false).state) ↔
      ((∃ ρ, conditional.Holds true ρ) → conditional.Repairable true (flagsOf true false).state) :=
  runHook_followable_iff rfl true

/-- `^^ ( a b )` -/
def oneOfTwo : UseTree :=
  .node none .exactOne (.node (some ['a']) .enable .null (.node (some ['b']) .enable .null .null)) .null

/-- With both flags on, the suggestion for `^^ ( a b )` is one of nothing. -/
theorem full_group_unfollowable : ¬ ∃ inactive, ∀ (flags : UseFlags) (e : UseTree) (s : Suggestion),
    runHook flags e = .error (.requiredUse s) → (∃ ρ, e.Holds inactive ρ) →
      s.Followable (e.Holds inactive) flags.state := by
  rintro ⟨inactive, hall⟩
  have hone : oneOfTwo.Holds inactive fun name => name == some ['a'] := by
    rw [UseTree.Holds]
    cases inactive <;> decide
  obtain ⟨ρ, -, hholds, -⟩ := hall (flagsOf true true) oneOfTwo
    (.expression .and [.expression .exactOne []]) rfl ⟨_, hone⟩
  exact absurd hholds (by simp [Suggestion.holds, Suggestion.eachHolds, SuggestionOperator.judges])

end RequiredUseHook

end AutoGentoo
