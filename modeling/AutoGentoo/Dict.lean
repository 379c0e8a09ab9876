import Mathlib.Logic.Basic

/-! Dictionaries that keep the order of insertion. -/

abbrev Dict (κ α : Type*) := List (κ × α)

namespace Dict

variable {κ α : Type*} [DecidableEq κ]

def get : Dict κ α → κ → Option α
  | [], _ => none
  | p :: d, k => if p.1 = k then some p.2 else get d k

def has (d : Dict κ α) (k : κ) : Bool := (get d k).isSome

/-- A key that is there keeps its place. -/
def set : Dict κ α → κ → α → Dict κ α
  | [], k, a => [(k, a)]
  | p :: d, k, a => if p.1 = k then (p.1, a) :: d else p :: set d k a

@[simp] theorem get_nil (k : κ) : get ([] : Dict κ α) k = none := rfl

theorem get_set (d : Dict κ α) (k : κ) (a : α) (k' : κ) :
    get (set d k a) k' = if k = k' then some a else get d k' := by
  induction d with
  | nil => rfl
  | cons p d ih =>
    by_cases hp : p.1 = k
    · by_cases hk : k = k'
      · simp [set, get, hp, hk]
      · simp [set, get, hp, hk]
    · by_cases hk : p.1 = k'
      · have hne : k' ≠ k := fun h => hp (hk.trans h)
        simp [set, get, hk, hne, hne.symm]
      · simp [set, get, hp, hk, ih]

@[simp] theorem get_set_self (d : Dict κ α) (k : κ) (a : α) : get (set d k a) k = some a := by
  rw [get_set, if_pos rfl]

theorem set_of_get {d : Dict κ α} {k : κ} {a : α} (h : get d k = some a) : set d k a = d := by
  induction d with
  | nil => exact absurd h (by simp)
  | cons p d ih =>
    by_cases hp : p.1 = k
    · rw [get, if_pos hp] at h
      rw [set, if_pos hp, ← Option.some.inj h]
    · rw [get, if_neg hp] at h
      rw [set, if_neg hp, ih h]

theorem mem_of_get {d : Dict κ α} {k : κ} {a : α} (h : get d k = some a) : (k, a) ∈ d := by
  induction d with
  | nil => exact absurd h (by simp)
  | cons p d ih =>
    rw [get] at h
    split at h
    · next hp =>
      rw [← hp, ← Option.some.inj h]
      exact List.mem_cons_self
    · exact List.mem_cons_of_mem _ (ih h)

theorem set_set (d : Dict κ α) (k : κ) (a b : α) : set (set d k a) k b = set d k b := by
  induction d with
  | nil => exact if_pos rfl
  | cons p d ih =>
    by_cases hp : p.1 = k
    · simp only [set, if_pos hp]
    · simp only [set, if_neg hp, ih]

theorem set_comm {d : Dict κ α} {k l : κ} (hk : get d k ≠ none) (hne : l ≠ k) (a b : α) :
    set (set d k a) l b = set (set d l b) k a := by
  induction d with
  | nil => exact absurd rfl hk
  | cons p d ih =>
    by_cases hp : p.1 = k
    · have hl : p.1 ≠ l := fun h => hne (h.symm.trans hp)
      simp only [set, if_pos hp, if_neg hl]
    · rw [get, if_neg hp] at hk
      by_cases hl : p.1 = l
      · simp only [set, if_neg hp, if_pos hl]
      · simp only [set, if_neg hp, if_neg hl, ih hk]

section Entries

variable (key : α → κ)

def setAll (d : Dict κ α) (l : List α) : Dict κ α := l.foldl (fun d a => set d (key a) a) d

theorem setAll_cons (d : Dict κ α) (a : α) (l : List α) :
    setAll key d (a :: l) = setAll key (set d (key a) a) l := rfl

theorem get_setAll (d : Dict κ α) (l : List α) (k : κ) :
    get (setAll key d l) k = ((l.filter fun a => key a = k).getLast?).or (get d k) := by
  induction l generalizing d with
  | nil => rfl
  | cons a l ih =>
    rw [setAll_cons, ih, get_set]
    by_cases hk : key a = k
    · rw [if_pos hk, List.filter_cons_of_pos (by simpa using hk), List.getLast?_cons]
      cases (l.filter fun a => key a = k).getLast? <;> rfl
    · rw [if_neg hk, List.filter_cons_of_neg (by simpa using hk)]

/-- An entry that is overwritten later might as well not be set. -/
theorem setAll_set {l : List α} {k : κ} (h : ∃ a ∈ l, key a = k) {d : Dict κ α}
    (hk : get d k ≠ none) (b : α) : setAll key (set d k b) l = setAll key d l := by
  induction l generalizing d with
  | nil => simp at h
  | cons a l ih =>
    rw [setAll_cons, setAll_cons]
    by_cases ha : key a = k
    · rw [ha, set_set]
    · have hrest : ∃ a ∈ l, key a = k := by
        obtain ⟨b, hb, he⟩ := h
        obtain rfl | hb := List.mem_cons.mp hb
        · exact absurd he ha
        · exact ⟨b, hb, he⟩
      have hget : get (set d (key a) a) k ≠ none := by rwa [get_set, if_neg ha]
      rw [set_comm hk ha, ih hrest hget]

/-- Only what is set last under a key counts. -/
theorem setAll_eq_iff {d : Dict κ α} {l : List α} : setAll key d l = d ↔
    ∀ k, ∀ a ∈ (l.filter fun a => key a = k).getLast?, get d k = some a := by
  constructor
  · intro h k a ha
    have hget := get_setAll key d l k
    rwa [h, Option.mem_def.mp ha, Option.some_or] at hget
  · intro h
    induction l with
    | nil => rfl
    | cons a l ih =>
      have hrest : ∀ k, ∀ b ∈ (l.filter fun a => key a = k).getLast?, get d k = some b := by
        intro k b hb
        apply h k b
        by_cases hk : key a = k
        · rw [List.filter_cons_of_pos (by simpa using hk), List.getLast?_cons, Option.mem_def.mp hb]
          rfl
        · rwa [List.filter_cons_of_neg (by simpa using hk)]
      have hlast := h (key a)
      rw [List.filter_cons_of_pos (by simp), List.getLast?_cons] at hlast
      rw [setAll_cons]
      by_cases hmore : ∃ b ∈ l, key b = key a
      · have hget : get d (key a) ≠ none := by
          rw [hlast _ rfl]
          exact Option.some_ne_none _
        rw [setAll_set key hmore hget, ih hrest]
      · have hnil : (l.filter fun b => key b = key a) = [] := by
          rw [List.filter_eq_nil_iff]
          intro b hb he
          exact hmore ⟨b, hb, of_decide_eq_true he⟩
        rw [hnil] at hlast
        rw [set_of_get (hlast a rfl), ih hrest]

end Entries

end Dict
