import Mathlib.Logic.Basic

/-! Runs of a partial step function of which every step meets a condition on
the state before it and the input. -/

namespace GuardedRun

variable {σ ι : Type*} {step : σ → ι → Option σ} {ok : σ → ι → Prop}

inductive Reaches (step : σ → ι → Option σ) (ok : σ → ι → Prop) (s : σ) : σ → Prop
  | refl : Reaches step ok s s
  | tail {t u : σ} {i : ι} (h : Reaches step ok s t) (hok : ok t i) (hs : step t i = some u) :
      Reaches step ok s u

/-- What holds at first and is kept by every step that meets the condition
holds in every state reached. -/
theorem Reaches.invariant {s t : σ} (h : Reaches step ok s t) (Inv : σ → Prop) (h0 : Inv s)
    (hstep : ∀ t i u, Inv t → ok t i → step t i = some u → Inv u) : Inv t := by
  induction h with
  | refl => exact h0
  | tail _ hok hs ih => exact hstep _ _ _ ih hok hs

/-- The state after a list of inputs. -/
def run (step : σ → ι → Option σ) (s : σ) : List ι → Option σ
  | [] => some s
  | i :: is => (step s i).bind fun t => run step t is

/-- The condition along a list of inputs. -/
def AllOk (step : σ → ι → Option σ) (ok : σ → ι → Prop) (s : σ) : List ι → Prop
  | [] => True
  | i :: is => ok s i ∧ ∀ t, step s i = some t → AllOk step ok t is

instance AllOk.decidable [∀ s i, Decidable (ok s i)] :
    (s : σ) → (is : List ι) → Decidable (AllOk step ok s is)
  | _, [] => isTrue trivial
  | s, i :: is =>
    have : ∀ t, Decidable (AllOk step ok t is) := fun t => AllOk.decidable t is
    decidable_of_iff (ok s i ∧ (step s i).all (fun t => decide (AllOk step ok t is)) = true)
      (and_congr_right' (by simp only [Option.all_eq_true, decide_eq_true_eq]))

theorem allOk_true (s : σ) (is : List ι) : AllOk step (fun _ _ => True) s is := by
  induction is generalizing s with
  | nil => trivial
  | cons i is ih => exact ⟨trivial, fun t _ => ih t⟩

theorem Reaches.run {s t u : σ} {is : List ι} (h : Reaches step ok s t)
    (hok : AllOk step ok t is) (hr : run step t is = some u) : Reaches step ok s u := by
  induction is generalizing t with
  | nil =>
    rw [GuardedRun.run, Option.some.injEq] at hr
    exact hr ▸ h
  | cons i is ih =>
    obtain ⟨v, hv, hrest⟩ := Option.bind_eq_some_iff.mp hr
    exact ih (h.tail hok.1 hv) (hok.2 v hv) hrest

/-- A property holds at first and after each of the inputs. -/
def Always (step : σ → ι → Option σ) (P : σ → Prop) (s : σ) : List ι → Prop
  | [] => P s
  | i :: is => P s ∧ ∀ t, step s i = some t → Always step P t is

/-- Where each step keeps the property just if the condition is met, it holds
all along a list of inputs just if the condition does. -/
theorem always_iff_allOk {Inv P : σ → Prop}
    (hstep : ∀ s i, Inv s → P s → ∃ t, step s i = some t ∧ Inv t ∧ (P t ↔ ok s i))
    {s : σ} (hi : Inv s) (hs : P s) (is : List ι) : Always step P s is ↔ AllOk step ok s is := by
  induction is generalizing s with
  | nil => exact ⟨fun _ => trivial, fun _ => hs⟩
  | cons i is ih =>
    obtain ⟨t, ht, hit, hiff⟩ := hstep s i hi hs
    constructor
    · rintro ⟨-, h⟩
      have htail := h t ht
      have hPt : P t := by
        cases is with
        | nil => exact htail
        | cons => exact htail.1
      refine ⟨hiff.mp hPt, fun u hu => ?_⟩
      obtain rfl := Option.some.inj (ht.symm.trans hu)
      exact (ih hit hPt).mp htail
    · rintro ⟨hok, h⟩
      refine ⟨hs, fun u hu => ?_⟩
      obtain rfl := Option.some.inj (ht.symm.trans hu)
      exact (ih hit (hiff.mpr hok)).mpr (h t ht)

theorem Always.last {next : σ → ι → σ} {P : σ → Prop} {s : σ} {is : List ι}
    (h : Always (fun s i => some (next s i)) P s is) : P (is.foldl next s) := by
  induction is generalizing s with
  | nil => exact h
  | cons i is ih => exact ih (h.2 _ rfl)

/-- A relation that the steps keep between two runs under the condition. -/
theorem foldl_simulates {τ : Type*} {next : σ → ι → σ} {next' : τ → ι → τ} {R : σ → τ → Prop}
    (hstep : ∀ {s t i}, R s t → ok s i → R (next s i) (next' t i)) {s : σ} {t : τ} (h : R s t)
    (is : List ι) (hok : AllOk (fun s i => some (next s i)) ok s is) :
    R (is.foldl next s) (is.foldl next' t) := by
  induction is generalizing s t with
  | nil => exact h
  | cons i is ih => exact ih (hstep h hok.1) (hok.2 _ rfl)

/-- Where a step that fits follows the abstract one, and one that does not has no result,
a run has a result just if all its steps fit, and then follows the abstract run. -/
theorem run_simulates {τ : Type*} (next : τ → ι → τ) (R : σ → τ → Prop) (allowed fits : τ → ι → Prop)
    (hfits : ∀ {s t i}, R s t → allowed t i → fits t i → ∃ s', step s i = some s' ∧ R s' (next t i))
    (hfull : ∀ {s t i}, R s t → allowed t i → ¬ fits t i → step s i = none)
    {s : σ} {t : τ} (h : R s t) (is : List ι)
    (hallowed : AllOk (fun t i => some (next t i)) allowed t is) :
    ((∃ s', run step s is = some s') ↔ AllOk (fun t i => some (next t i)) fits t is) ∧
      ∀ s', run step s is = some s' → R s' (is.foldl next t) := by
  induction is generalizing s t with
  | nil =>
    refine ⟨iff_of_true ⟨s, rfl⟩ trivial, fun s' hrun => ?_⟩
    obtain rfl := Option.some.inj hrun
    exact h
  | cons i is ih =>
    by_cases hi : fits t i
    · obtain ⟨mid, hstep, hmid⟩ := hfits h hallowed.1 hi
      obtain ⟨hruns, hlast⟩ := ih hmid (hallowed.2 _ rfl)
      have hrun : run step s (i :: is) = run step mid is := by rw [run, hstep, Option.bind_some]
      rw [hrun]
      refine ⟨hruns.trans ⟨fun hrest => ⟨hi, fun u hu => ?_⟩, fun hall => hall.2 _ rfl⟩, hlast⟩
      obtain rfl := Option.some.inj hu
      exact hrest
    · have hrun : run step s (i :: is) = none := by
        rw [run, hfull h hallowed.1 hi]
        rfl
      rw [hrun]
      exact ⟨iff_of_false (by simp) fun hall => hi hall.1, by simp⟩

end GuardedRun
