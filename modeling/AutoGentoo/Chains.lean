import Mathlib.Data.List.Basic
import Mathlib.Data.List.Dedup

/-! Tables of chains indexed by the remainder of a hash. The elements of one
hash form a list of their own, which growth of the table does not change. -/

namespace Chains

variable {α : Type*}

def bucket (t : List (List α)) (h : Nat) : List α := t.getD (h % t.length) []

def modifyBucket (t : List (List α)) (h : Nat) (f : List α → List α) : List (List α) :=
  t.modify (h % t.length) f

theorem length_modifyBucket (t : List (List α)) (h : Nat) (f : List α → List α) :
    (modifyBucket t h f).length = t.length := by
  simp [modifyBucket]

theorem bucket_modify {t : List (List α)} (ht : t ≠ []) (h h' : Nat) (f : List α → List α) :
    bucket (modifyBucket t h f) h' =
      if h' % t.length = h % t.length then f (bucket t h) else bucket t h' := by
  have hlt : ∀ k, k % t.length < t.length :=
    fun k => Nat.mod_lt k (List.length_pos_iff.mpr ht)
  unfold bucket
  rw [length_modifyBucket]
  split_ifs with he
  · rw [he]
    simp [modifyBucket, List.getD_eq_getElem?_getD, hlt h]
  · have hne : ¬ h % t.length = h' % t.length := fun hh => he hh.symm
    simp [modifyBucket, List.getD_eq_getElem?_getD, hne]

variable (hash : α → Nat)

/-- Every element lies in the chain of its hash. -/
def Placed (t : List (List α)) : Prop :=
  ∀ h, ∀ a ∈ bucket t h, hash a % t.length = h % t.length

/-- The elements of hash `h`, in the order of their chain. -/
def ofHash (t : List (List α)) (h : Nat) : List α := (bucket t h).filter (hash · = h)

def add (t : List (List α)) (a : α) : List (List α) := modifyBucket t (hash a) (· ++ [a])

def empty (size : Nat) : List (List α) := List.replicate size []

variable {hash}

theorem bucket_empty (size h : Nat) : bucket (empty size : List (List α)) h = [] := by
  simp [bucket, empty, List.getD_eq_getElem?_getD, List.getElem?_replicate]
  split_ifs <;> rfl

theorem placed_empty (size : Nat) : Placed hash (empty size) := by
  intro h a ha
  simp [bucket_empty] at ha

theorem ofHash_empty (size h : Nat) : ofHash hash (empty size) h = [] := by
  simp [ofHash, bucket_empty]

theorem ofHash_modify {t : List (List α)} (ht : t ≠ []) (h h' : Nat) (f : List α → List α) :
    ofHash hash (modifyBucket t h f) h' =
      if h' % t.length = h % t.length then (f (bucket t h)).filter (hash · = h')
      else ofHash hash t h' := by
  unfold ofHash
  rw [bucket_modify ht]
  split_ifs <;> rfl

theorem bucket_congr {t : List (List α)} {h h' : Nat} (he : h' % t.length = h % t.length) :
    bucket t h' = bucket t h := by
  unfold bucket
  rw [he]

theorem ofHash_add {t : List (List α)} (ht : t ≠ []) (a : α) (h : Nat) :
    ofHash hash (add hash t a) h =
      if hash a = h then ofHash hash t h ++ [a] else ofHash hash t h := by
  rw [add, ofHash_modify ht]
  by_cases he : hash a = h
  · simp [he, ofHash]
  · by_cases hm : h % t.length = hash a % t.length
    · simp [he, hm, ofHash, bucket_congr hm]
    · simp [he, hm]

theorem placed_modify {t : List (List α)} (ht : t ≠ []) {h : Nat} {f : List α → List α}
    (hp : Placed hash t) (hf : ∀ a ∈ f (bucket t h), hash a % t.length = h % t.length) :
    Placed hash (modifyBucket t h f) := by
  intro h' a ha
  rw [bucket_modify ht] at ha
  rw [length_modifyBucket]
  split_ifs at ha with he
  · rw [hf a ha, he]
  · exact hp h' a ha

/-- An element may make room for another of its hash. -/
theorem Placed.replace {t : List (List α)} (hp : Placed hash t) {h : Nat} {front back : List α} {a b : α}
    (hb : bucket t h = front ++ a :: back) (hh : hash b = hash a) :
    ∀ x ∈ front ++ b :: back, hash x % t.length = h % t.length := by
  have hall := hp h
  rw [hb] at hall
  intro x hx
  obtain hx | rfl | hx := List.mem_append.mp hx |>.imp_right List.mem_cons.mp
  · exact hall x (List.mem_append_left _ hx)
  · rw [hh]
    exact hall a (List.mem_append_right _ List.mem_cons_self)
  · exact hall x (List.mem_append_right _ (List.mem_cons_of_mem _ hx))

theorem placed_add {t : List (List α)} (ht : t ≠ []) (hp : Placed hash t) (a : α) :
    Placed hash (add hash t a) := by
  refine placed_modify ht hp (fun x hx => ?_)
  rcases List.mem_append.mp hx with hx | hx
  · exact hp _ x hx
  · rw [List.mem_singleton.mp hx]

theorem length_add (t : List (List α)) (a : α) : (add hash t a).length = t.length :=
  length_modifyBucket t _ _

theorem ne_nil_of_length {t t' : List (List α)} (ht : t ≠ []) (h : t'.length = t.length) :
    t' ≠ [] := by
  rw [← List.length_pos_iff] at ht ⊢
  omega

theorem ofHash_foldl {t : List (List α)} (ht : t ≠ []) (as : List α) (h : Nat) :
    ofHash hash (as.foldl (add hash) t) h = ofHash hash t h ++ as.filter (hash · = h) := by
  induction as generalizing t with
  | nil => simp
  | cons a as ih =>
    rw [List.foldl_cons, ih (ne_nil_of_length ht (length_add t a)), ofHash_add ht]
    by_cases he : hash a = h <;> simp [he]

theorem placed_foldl {t : List (List α)} (ht : t ≠ []) (hp : Placed hash t) (as : List α) :
    Placed hash (as.foldl (add hash) t) := by
  induction as generalizing t with
  | nil => exact hp
  | cons a as ih =>
    exact ih (ne_nil_of_length ht (length_add t a)) (placed_add ht hp a)

theorem length_foldl (t : List (List α)) (as : List α) :
    (as.foldl (add hash) t).length = t.length := by
  induction as generalizing t with
  | nil => rfl
  | cons a as ih => rw [List.foldl_cons, ih, length_add]

theorem flatten_single {t : List (List α)} {i : Nat} (h : ∀ j, j ≠ i → t.getD j [] = []) :
    t.flatten = t.getD i [] := by
  induction t generalizing i with
  | nil => rfl
  | cons x t ih =>
    cases i with
    | zero =>
      have ht : t.flatten = t.getD t.length [] := ih (fun j _ => by simpa using h (j + 1) (by omega))
      simp [ht]
    | succ i =>
      have hx : x = [] := by simpa using h 0 (by omega)
      have ht := ih (i := i) (fun j hj => by simpa using h (j + 1) (by omega))
      simp [hx, ht]

/-- In a table with every element in place a class is found in one chain. -/
theorem filter_flatten {t : List (List α)} (hp : Placed hash t) (h : Nat) :
    t.flatten.filter (hash · = h) = ofHash hash t h := by
  rw [List.filter_flatten, flatten_single (i := h % t.length)]
  · simp [ofHash, bucket, List.getD_eq_getElem?_getD, List.getElem?_map]
    cases t[h % t.length]? <;> rfl
  · intro j hj
    by_cases hlt : j < t.length
    · have hb : bucket t j = t[j] := by
        simp [bucket, List.getD_eq_getElem?_getD, Nat.mod_eq_of_lt hlt, hlt]
      simp only [List.getD_eq_getElem?_getD, List.getElem?_map, List.getElem?_eq_getElem hlt,
        Option.map_some, Option.getD_some, List.filter_eq_nil_iff, decide_eq_true_eq]
      intro a ha he
      have hpa := hp j a (by rwa [hb])
      rw [he, Nat.mod_eq_of_lt hlt] at hpa
      exact hj hpa.symm
    · simp [List.getD_eq_getElem?_getD, List.getElem?_eq_none (Nat.le_of_not_lt hlt)]

theorem mem_bucket_iff {t : List (List α)} (hp : Placed hash t) {a : α} :
    a ∈ bucket t (hash a) ↔ a ∈ t.flatten := by
  have hclass : a ∈ ofHash hash t (hash a) ↔ a ∈ t.flatten := by
    rw [← filter_flatten hp, List.mem_filter]
    simp
  rw [← hclass, ofHash, List.mem_filter]
  simp

/-- A table refilled from all elements has the classes it had before. -/
theorem ofHash_refill {t : List (List α)} (hp : Placed hash t) {size : Nat} (hs : 0 < size)
    (h : Nat) :
    ofHash hash (t.flatten.foldl (add hash) (empty size)) h = ofHash hash t h := by
  have hne : (empty size : List (List α)) ≠ [] := by
    simp only [empty, ne_eq, List.replicate_eq_nil_iff]
    omega
  rw [ofHash_foldl hne, ofHash_empty, List.nil_append, filter_flatten hp]

theorem length_flatten_modify {t : List (List α)} {i : Nat} (hi : i < t.length)
    (f : List α → List α) :
    (t.modify i f).flatten.length + (t.getD i []).length =
      t.flatten.length + (f (t.getD i [])).length := by
  induction t generalizing i with
  | nil => simp at hi
  | cons x t ih =>
    cases i with
    | zero =>
      simp
      omega
    | succ i =>
      have hh := ih (i := i) (by simpa using hi)
      simp only [List.modify_succ_cons, List.flatten_cons, List.length_append,
        List.getD_cons_succ]
      omega

theorem length_flatten_modifyBucket {t : List (List α)} (ht : t ≠ []) (h : Nat)
    (f : List α → List α) :
    (modifyBucket t h f).flatten.length + (bucket t h).length =
      t.flatten.length + (f (bucket t h)).length :=
  length_flatten_modify (Nat.mod_lt _ (List.length_pos_iff.mpr ht)) f

theorem length_flatten_add {t : List (List α)} (ht : t ≠ []) (a : α) :
    (add hash t a).flatten.length = t.flatten.length + 1 := by
  have hh := length_flatten_modifyBucket ht (hash a) (· ++ [a])
  simp only [List.length_append, List.length_singleton] at hh
  unfold add
  omega

theorem length_flatten_foldl {t : List (List α)} (ht : t ≠ []) (as : List α) :
    (as.foldl (add hash) t).flatten.length = t.flatten.length + as.length := by
  induction as generalizing t with
  | nil => simp
  | cons a as ih =>
    rw [List.foldl_cons, ih (ne_nil_of_length ht (length_add t a)), length_flatten_add ht,
      List.length_cons]
    omega

/-- Of the elements only those of the bucket are affected. -/
theorem flatten_modify_perm {t : List (List α)} {i : Nat} (hi : i < t.length) :
    ∃ rest, t.flatten.Perm (t.getD i [] ++ rest) ∧
      ∀ f, (t.modify i f).flatten.Perm (f (t.getD i []) ++ rest) := by
  induction t generalizing i with
  | nil => simp at hi
  | cons x t ih =>
    cases i with
    | zero => exact ⟨t.flatten, .refl _, fun f => .refl _⟩
    | succ i =>
      obtain ⟨rest, hrest, hmodify⟩ := ih (i := i) (by simpa using hi)
      refine ⟨x ++ rest, ?_, fun f => ?_⟩
      · rw [List.flatten_cons, List.getD_cons_succ]
        exact (hrest.append_left x).trans (List.perm_append_comm_assoc _ _ _)
      · rw [List.modify_succ_cons, List.flatten_cons, List.getD_cons_succ]
        exact ((hmodify f).append_left x).trans (List.perm_append_comm_assoc _ _ _)

theorem flatten_modifyBucket_perm {t : List (List α)} (ht : t ≠ []) (h : Nat) :
    ∃ rest, t.flatten.Perm (bucket t h ++ rest) ∧
      ∀ f, (modifyBucket t h f).flatten.Perm (f (bucket t h) ++ rest) :=
  flatten_modify_perm (Nat.mod_lt _ (List.length_pos_iff.mpr ht))

/-- One element of a chain, which may make room for another or for none. -/
theorem flatten_replace_perm {t : List (List α)} (ht : t ≠ []) {h : Nat} {front back : List α} {a : α}
    (hb : bucket t h = front ++ a :: back) : ∃ rest, t.flatten.Perm (a :: rest) ∧
      (∀ b, (modifyBucket t h fun _ => front ++ b :: back).flatten.Perm (b :: rest)) ∧
      (modifyBucket t h fun _ => front ++ back).flatten.Perm rest := by
  obtain ⟨rest, hrest, hmodify⟩ := flatten_modifyBucket_perm ht h
  have hmove : ∀ b, ((front ++ b :: back) ++ rest).Perm (b :: (front ++ back ++ rest)) := by
    intro b
    rw [List.append_assoc, List.append_assoc, List.cons_append]
    exact List.perm_middle
  rw [hb] at hrest
  exact ⟨front ++ back ++ rest, hrest.trans (hmove a), fun b => (hmodify _).trans (hmove b),
    hmodify fun _ => front ++ back⟩

theorem flatten_add_perm {t : List (List α)} (ht : t ≠ []) (a : α) :
    (add hash t a).flatten.Perm (a :: t.flatten) := by
  obtain ⟨rest, hrest, hmodify⟩ := flatten_modifyBucket_perm ht (hash a)
  have hmove : ((bucket t (hash a) ++ [a]) ++ rest).Perm (a :: (bucket t (hash a) ++ rest)) := by
    rw [List.append_assoc]
    exact List.perm_middle
  exact ((hmodify _).trans hmove).trans (hrest.symm.cons a)

/-- The classes determine the elements. -/
theorem perm_of_ofHash {t t' : List (List α)} (hp : Placed hash t) (hp' : Placed hash t')
    (h : ∀ k, ofHash hash t' k = ofHash hash t k) : t'.flatten.Perm t.flatten := by
  classical
  apply List.perm_iff_count.mpr
  intro a
  have hcount : ∀ l : List α, l.count a = (l.filter (hash · = hash a)).count a :=
    fun l => (List.count_filter (by simp)).symm
  rw [hcount, hcount t.flatten, filter_flatten hp', filter_flatten hp, h]

end Chains
