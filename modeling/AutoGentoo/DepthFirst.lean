import Mathlib.Data.List.Nodup
import Mathlib.Logic.Relation

/-! Depth-first marking of a graph given by the lists of its successors. -/

namespace DepthFirst

open Relation

variable {V : Type*} (next : V → List V)

def Edge (v w : V) : Prop := w ∈ next v

variable {next} {fuel : Nat} {seen mid seen' roots : List V} {v : V}

variable (next) in
/-- The roots are marked, and what they lead to. -/
structure Visited (seen roots seen' : List V) : Prop where
  suffix : seen <:+ seen'
  marked : ∀ v ∈ roots, v ∈ seen'
  closed : ∀ a ∈ seen', a ∉ seen → ∀ b ∈ next a, b ∈ seen'
  reached : ∀ a ∈ seen', a ∉ seen → ∃ v ∈ roots, ReflTransGen (Edge next) v a
  nodup : seen.Nodup → seen'.Nodup

theorem visited_nil (seen : List V) : Visited next seen [] seen :=
  ⟨List.suffix_refl seen, by simp, fun _ ha hnot => absurd ha hnot, fun _ ha hnot => absurd ha hnot, id⟩

theorem visited_of_mem (hv : v ∈ seen) : Visited next seen [v] seen :=
  ⟨List.suffix_refl seen, by simpa using hv, fun _ ha hnot => absurd ha hnot,
    fun _ ha hnot => absurd ha hnot, id⟩

theorem Visited.cons (h : Visited next seen [v] mid) (h' : Visited next mid roots seen') :
    Visited next seen (v :: roots) seen' := by
  refine ⟨h.suffix.trans h'.suffix, fun w hw => ?_, fun a ha hnot b hb => ?_, fun a ha hnot => ?_,
    fun hseen => h'.nodup (h.nodup hseen)⟩
  · rcases List.mem_cons.mp hw with rfl | hw
    · exact h'.suffix.subset (h.marked w (List.mem_singleton_self w))
    · exact h'.marked w hw
  · by_cases hmid : a ∈ mid
    · exact h'.suffix.subset (h.closed a hmid hnot b hb)
    · exact h'.closed a ha hmid b hb
  · by_cases hmid : a ∈ mid
    · obtain ⟨w, hw, hpath⟩ := h.reached a hmid hnot
      obtain rfl := List.mem_singleton.mp hw
      exact ⟨w, List.mem_cons_self, hpath⟩
    · obtain ⟨w, hw, hpath⟩ := h'.reached a ha hmid
      exact ⟨w, List.mem_cons_of_mem v hw, hpath⟩

/-- Marking a vertex and then its successors. -/
theorem Visited.enter (hv : v ∉ seen) (h : Visited next (v :: seen) (next v) seen') :
    Visited next seen [v] seen' := by
  have hmark : v ∈ seen' := h.suffix.subset List.mem_cons_self
  refine ⟨(List.suffix_cons v seen).trans h.suffix, by simpa using hmark, fun a ha hnot b hb => ?_,
    fun a ha hnot => ⟨v, List.mem_singleton_self v, ?_⟩, fun hseen => h.nodup (List.nodup_cons.mpr ⟨hv, hseen⟩)⟩
  · by_cases hav : a = v
    · exact h.marked b (hav ▸ hb)
    · exact h.closed a ha (by simp [hav, hnot]) b hb
  · by_cases hav : a = v
    · rw [hav]
    · obtain ⟨w, hw, hpath⟩ := h.reached a ha (by simp [hav, hnot])
      exact .head hw hpath

theorem foldlM_visited {visit : List V → V → Option (List V)}
    (hvisit : ∀ {seen v seen'}, visit seen v = some seen' → Visited next seen [v] seen')
    (h : roots.foldlM visit seen = some seen') : Visited next seen roots seen' := by
  induction roots generalizing seen with
  | nil =>
    obtain rfl := Option.some.inj h
    exact visited_nil seen
  | cons v roots ih =>
    rw [List.foldlM_cons] at h
    obtain ⟨mid, hmid, hrest⟩ := Option.bind_eq_some_iff.mp h
    exact (hvisit hmid).cons (ih hrest)

variable [DecidableEq V]

variable (next) in
/-- What is marked after a visit, the latest first. Without fuel nothing new is marked. -/
def visit : Nat → List V → V → Option (List V)
  | 0, seen, v => if v ∈ seen then some seen else none
  | fuel + 1, seen, v => if v ∈ seen then some seen else (next v).foldlM (visit fuel) (v :: seen)

theorem visit_of_mem (hv : v ∈ seen) : visit next fuel seen v = some seen := by
  cases fuel <;> rw [visit, if_pos hv]

theorem visit_zero (hv : v ∉ seen) : visit next 0 seen v = none := by rw [visit, if_neg hv]

theorem visit_succ (hv : v ∉ seen) :
    visit next (fuel + 1) seen v = (next v).foldlM (visit next fuel) (v :: seen) := by
  rw [visit, if_neg hv]

theorem visit_visited (h : visit next fuel seen v = some seen') : Visited next seen [v] seen' := by
  induction fuel generalizing seen v seen' with
  | zero =>
    by_cases hv : v ∈ seen
    · obtain rfl := Option.some.inj ((visit_of_mem hv).symm.trans h)
      exact visited_of_mem hv
    · rw [visit_zero hv] at h
      exact absurd h (by simp)
  | succ fuel ih =>
    by_cases hv : v ∈ seen
    · obtain rfl := Option.some.inj ((visit_of_mem hv).symm.trans h)
      exact visited_of_mem hv
    · rw [visit_succ hv] at h
      exact Visited.enter hv (foldlM_visited ih h)

/-- From no marks, what is marked is what is reached. -/
theorem visit_mem_iff (h : visit next fuel [] v = some seen') (a : V) :
    a ∈ seen' ↔ ReflTransGen (Edge next) v a := by
  have hvisited := visit_visited h
  constructor
  · intro ha
    obtain ⟨w, hw, hpath⟩ := hvisited.reached a ha (by simp)
    exact List.mem_singleton.mp hw ▸ hpath
  · intro hpath
    induction hpath with
    | refl => exact hvisited.marked v (List.mem_singleton_self v)
    | tail _ hedge ih => exact hvisited.closed _ ih (by simp) _ hedge

/-- How many are not marked. -/
def unseen (vertices seen : List V) : Nat := (vertices.filter (· ∉ seen)).length

theorem unseen_mono (vertices : List V) (h : seen ⊆ seen') : unseen vertices seen' ≤ unseen vertices seen := by
  refine (List.monotone_filter_right vertices fun a ha => ?_).length_le
  simp only [decide_eq_true_eq] at ha ⊢
  exact fun hmem => ha (h hmem)

theorem unseen_cons {vertices : List V} (hmem : v ∈ vertices) (hv : v ∉ seen) :
    unseen vertices (v :: seen) < unseen vertices seen := by
  have hsub : (vertices.filter (· ∉ v :: seen)).Sublist (vertices.filter (· ∉ seen)) :=
    List.monotone_filter_right vertices fun a ha => by
      simp only [decide_eq_true_eq, List.mem_cons, not_or] at ha ⊢
      exact ha.2
  refine Nat.lt_of_le_of_ne hsub.length_le fun he => ?_
  have hin : v ∈ vertices.filter (· ∉ seen) := List.mem_filter.mpr ⟨hmem, by simpa using hv⟩
  rw [← hsub.eq_of_length he, List.mem_filter] at hin
  exact absurd hin.2 (by simp)

/-- Enough fuel for the vertices not marked. -/
theorem visit_total {P : V → Prop} {vertices : List V} (hP : ∀ a, P a → a ∈ vertices)
    (hnext : ∀ a, P a → ∀ b ∈ next a, P b) (hv : P v) (hfuel : unseen vertices seen ≤ fuel) :
    ∃ seen', visit next fuel seen v = some seen' := by
  induction fuel generalizing seen v with
  | zero =>
    refine ⟨seen, visit_of_mem ?_⟩
    by_contra hnot
    exact absurd hfuel (Nat.not_le_of_gt (Nat.lt_of_le_of_lt (Nat.zero_le _) (unseen_cons (hP v hv) hnot)))
  | succ fuel ih =>
    by_cases hmem : v ∈ seen
    · exact ⟨seen, visit_of_mem hmem⟩
    · have hfold : ∀ (l seen : List V), (∀ b ∈ l, P b) → unseen vertices seen ≤ fuel →
          ∃ seen', l.foldlM (visit next fuel) seen = some seen' := by
        intro l
        induction l with
        | nil => exact fun seen _ _ => ⟨seen, rfl⟩
        | cons b l ihl =>
          intro seen hl hroom
          obtain ⟨mid, hmid⟩ := ih (hl b List.mem_cons_self) hroom
          obtain ⟨seen', hrest⟩ := ihl mid (fun c hc => hl c (List.mem_cons_of_mem b hc))
            (Nat.le_trans (unseen_mono vertices (visit_visited hmid).suffix.subset) hroom)
          exact ⟨seen', by rw [List.foldlM_cons, hmid]; exact hrest⟩
      rw [visit_succ hmem]
      exact hfold (next v) (v :: seen) (hnext v hv)
        (Nat.le_of_lt_succ (Nat.lt_of_lt_of_le (unseen_cons (hP v hv) hmem) hfuel))

end DepthFirst
