import AutoGentoo.Vector
import AutoGentoo.GuardedRun

/-! A vector is the list of its first `n` slots. -/

namespace AutoGentoo

/-- A loop over the elements of a list from an index on, with so many turns to go, that ends
at the first one of a kind. -/
structure Searches {α β : Type*} (loop : Nat → Nat → β) (l : List α) (p : α → Prop) (found : Nat → α → β)
    (missed : β) : Prop where
  done : ∀ index, loop 0 index = missed
  hit : ∀ front x back count, l = front ++ x :: back → p x → loop (count + 1) front.length = found front.length x
  pass : ∀ front x back count, l = front ++ x :: back → ¬ p x →
    loop (count + 1) front.length = loop count (front.length + 1)

namespace Searches

variable {α β : Type*} {loop : Nat → Nat → β} {l : List α} {p : α → Prop} {found : Nat → α → β} {missed : β}

/-- The loop goes on behind elements that are not of the kind. -/
theorem skip (h : Searches loop l p found missed) (count : Nat) (done front rest : List α)
    (hl : l = done ++ (front ++ rest)) (hfront : ∀ x ∈ front, ¬ p x) :
    loop (front.length + count) done.length = loop count (done ++ front).length := by
  induction front generalizing done with
  | nil => rw [List.length_nil, Nat.zero_add, List.append_nil]
  | cons x front ih =>
    have hassoc : ∀ rest, done ++ (x :: rest) = (done ++ [x]) ++ rest := fun rest => by simp
    have hrest := ih (done ++ [x]) (by rw [hl, List.cons_append, hassoc])
      fun y hy => hfront y (List.mem_cons_of_mem x hy)
    rw [List.length_append, List.length_singleton, ← hassoc] at hrest
    rw [List.length_cons, Nat.add_right_comm, h.pass done x _ _ hl (hfront x List.mem_cons_self), hrest]

theorem none (h : Searches loop l p found missed) (hnone : ∀ x ∈ l, ¬ p x) : loop l.length 0 = missed := by
  have hskip := h.skip 0 [] l [] (by simp) hnone
  rwa [Nat.add_zero, List.length_nil, h.done] at hskip

theorem first {front back : List α} {x : α} (h : Searches loop (front ++ x :: back) p found missed) (hx : p x)
    (hfront : ∀ y ∈ front, ¬ p y) : loop (front ++ x :: back).length 0 = found front.length x := by
  have hskip := h.skip (back.length + 1) [] front (x :: back) (by simp) hfront
  rw [List.nil_append, List.length_nil, h.hit front x back _ rfl hx] at hskip
  rw [List.length_append, List.length_cons, hskip]

end Searches

namespace Vector

variable {v : Vector} {l : List Nat}

/-- The vector has these elements, and room for one more. -/
structure Holds (vector : Vector) (elements : List Nat) : Prop where
  n : vector.n = elements.length
  size : vector.ptr.length = vector.s
  slots : ∃ x tail, vector.ptr = elements.map some ++ x :: tail

theorem Holds.n_lt (h : Holds v l) : v.n < v.s := by
  obtain ⟨x, tail, hptr⟩ := h.slots
  rw [h.n, ← h.size, hptr]
  simp

theorem Holds.take (h : Holds v l) : v.ptr.take v.n = l.map some := by
  obtain ⟨x, tail, hptr⟩ := h.slots
  rw [h.n, hptr]
  exact List.take_left' (List.length_map some)

theorem holds_new (opts : Nat) : Holds (vectorNew opts) [] :=
  ⟨rfl, rfl, none, List.replicate 31 none, rfl⟩

theorem holds_allocate (h : Holds v l) : Holds (vectorAllocate v) l ∧ v.n + 1 < (vectorAllocate v).s := by
  have hlt := h.n_lt
  obtain ⟨x, tail, hptr⟩ := h.slots
  refine ⟨⟨h.n, ?_, x, tail ++ List.replicate v.s none, ?_⟩, ?_⟩
  · simp only [vectorAllocate, List.length_append, List.length_replicate, h.size]
    omega
  · simp only [vectorAllocate, hptr, List.append_assoc, List.cons_append]
  · simp only [vectorAllocate]
    omega

theorem holds_allocateToSize (h : Holds v l) (s : Nat) : Holds (vectorAllocateToSize v s) l := by
  obtain ⟨x, tail, hptr⟩ := h.slots
  refine ⟨h.n, ?_, x, tail ++ List.replicate s none, ?_⟩
  · simp only [vectorAllocateToSize, List.length_append, List.length_replicate, h.size]
  · simp only [vectorAllocateToSize, hptr, List.append_assoc, List.cons_append]

theorem Holds.slots_two (h : Holds v l) (hroom : v.n + 1 < v.s) :
    ∃ x y tail, v.ptr = l.map some ++ x :: y :: tail := by
  obtain ⟨x, tail, hptr⟩ := h.slots
  cases tail with
  | nil =>
    rw [h.n, ← h.size, hptr] at hroom
    simp at hroom
  | cons y tail => exact ⟨x, y, tail, hptr⟩

theorem write_append (front : Slots) (x : Option Nat) (tail : Slots) (el : Nat) :
    Slots.write (front ++ x :: tail) front.length el = some (front ++ some el :: tail) := by
  rw [Slots.write, if_pos (by simp)]
  simp

theorem read_append (front : Slots) (x : Nat) (tail : Slots) :
    Slots.read (front ++ some x :: tail) front.length = some x := by
  simp [Slots.read]

/-- The elements behind a place move up by one, over the slot behind them. -/
theorem move_up (front back : Slots) (x : Option Nat) (tail : Slots) :
    ∃ z, Slots.move (front ++ (back ++ x :: tail)) (front.length + 1) front.length back.length =
      some (front ++ z :: (back ++ tail)) := by
  obtain ⟨z, rest, hz⟩ : ∃ z rest, back ++ x :: tail = z :: rest := by
    cases back with
    | nil => exact ⟨x, tail, rfl⟩
    | cons z back => exact ⟨z, back ++ x :: tail, rfl⟩
  have hback : ((front ++ (back ++ x :: tail)).drop front.length).take back.length = back := by
    rw [List.drop_left, List.take_left]
  have htail : (front ++ (back ++ x :: tail)).drop (front.length + 1 + back.length) = tail := by
    have hsplit : front ++ (back ++ x :: tail) = (front ++ back ++ [x]) ++ tail := by simp
    rw [hsplit]
    exact List.drop_left' (by simp; omega)
  have hfront : (front ++ (back ++ x :: tail)).take (front.length + 1) = front ++ [z] := by
    have hsplit : front ++ (back ++ x :: tail) = (front ++ [z]) ++ rest := by rw [hz]; simp
    rw [hsplit]
    exact List.take_left' (by simp)
  refine ⟨z, ?_⟩
  rw [Slots.move, if_pos (by simp; omega), hback, htail, hfront]
  simp

/-- The elements behind a place move down by one; the last stays where it was as well. -/
theorem move_down (front : Slots) (x : Option Nat) (back tail : Slots) :
    ∃ z, Slots.move (front ++ x :: (back ++ tail)) front.length (front.length + 1) back.length =
      some (front ++ (back ++ z :: tail)) := by
  obtain ⟨z, hz⟩ : ∃ z, (x :: back).drop back.length = [z] := by
    apply List.length_eq_one_iff.mp
    simp
  have hsrc : ((front ++ x :: (back ++ tail)).drop (front.length + 1)).take back.length = back := by
    have hsplit : front ++ x :: (back ++ tail) = (front ++ [x]) ++ (back ++ tail) := by simp
    rw [hsplit, List.drop_left' (by simp), List.take_left]
  have htail : (front ++ x :: (back ++ tail)).drop (front.length + back.length) = z :: tail := by
    have hlast : x :: back = (x :: back).take back.length ++ [z] := by
      rw [← hz, List.take_append_drop]
    have hsplit : front ++ x :: (back ++ tail) =
        (front ++ (x :: back).take back.length) ++ (z :: tail) := by
      rw [← List.cons_append, hlast]
      simp
    rw [hsplit]
    exact List.drop_left' (by simp)
  refine ⟨z, ?_⟩
  rw [Slots.move, if_pos (by simp; omega), List.take_left, hsrc, htail]
  simp

theorem intSum_eq {a b : Nat} (h : a + b < 2 ^ 31) : intSum a b = some (a + b) := if_pos h

theorem Holds.grown (h : Holds v l) (check : Prop) [Decidable check]
    (hroom : ¬ check → v.n + 1 < v.s) : ∃ grown, (if check then vectorAllocate v else v) = grown ∧
      Holds grown l ∧ grown.n + 1 < grown.s ∧ grown.opts = v.opts := by
  by_cases hc : check
  · obtain ⟨ha, hmore⟩ := holds_allocate h
    exact ⟨vectorAllocate v, if_pos hc, ha, hmore, rfl⟩
  · exact ⟨v, if_neg hc, h, hroom hc, rfl⟩

theorem vectorAdd_spec (h : Holds v l) (hlt : l.length + 1 < 2 ^ 31) (el : Nat) :
    ∃ v', vectorAdd v el = some (l.length, v') ∧ Holds v' (l ++ [el]) ∧ v'.opts = v.opts := by
  have hnext : intSum v.n 1 = some (v.n + 1) := intSum_eq (h.n ▸ hlt)
  have hn := h.n_lt
  obtain ⟨grown, hgrown, hg, hroom, hopts⟩ := h.grown (v.s = v.n + 1) (by omega)
  obtain ⟨x, y, tail, hptr⟩ := hg.slots_two hroom
  have hwrite : Slots.write grown.ptr grown.n el = some (l.map some ++ some el :: y :: tail) := by
    rw [hptr, hg.n, ← List.length_map (f := some)]
    exact write_append (l.map some) x (y :: tail) el
  have hadd : vectorAdd v el = some (l.length, { grown with
      ptr := l.map some ++ some el :: y :: tail, n := l.length + 1 }) := by
    rw [vectorAdd, hnext, Option.bind_some]
    dsimp only
    rw [hgrown, hwrite, h.n]
    rfl
  refine ⟨_, hadd, ⟨?_, ?_, y, tail, ?_⟩, hopts⟩
  · simp
  · have hsize := hg.size
    rw [hptr] at hsize
    simpa using hsize
  · simp

theorem insertIdx_split {α : Type*} (front back : List α) (el : α) :
    (front ++ back).insertIdx front.length el = front ++ el :: back := by
  induction front with
  | nil => rfl
  | cons x front ih => exact congrArg (x :: ·) ih

theorem eraseIdx_split {α : Type*} (front : List α) (x : α) (back : List α) :
    (front ++ x :: back).eraseIdx front.length = front ++ back := by
  rw [List.eraseIdx_append_of_length_le (Nat.le_refl _), Nat.sub_self]
  rfl

theorem vectorInsert_spec {front back : List Nat} (h : Holds v (front ++ back))
    (hlt : (front ++ back).length + 1 < 2 ^ 31) (el : Nat) :
    ∃ v', vectorInsert v el front.length = some v' ∧ Holds v' (front ++ el :: back) ∧
      v'.opts = v.opts := by
  have hnext : intSum v.n 1 = some (v.n + 1) := intSum_eq (h.n ▸ hlt)
  have hn := h.n_lt
  obtain ⟨grown, hgrown, hg, hroom, hopts⟩ := h.grown (v.s ≤ v.n + 1) (by omega)
  obtain ⟨x, y, tail, hptr⟩ := hg.slots_two hroom
  obtain ⟨z, hmove⟩ := move_up (front.map some) (back.map some) x (y :: tail)
  rw [List.length_map, List.length_map] at hmove
  have hlen : (front ++ back).length = front.length + back.length := List.length_append
  have hmoved : Slots.move grown.ptr ((front.length + 1) % 2 ^ 32) front.length
      ((grown.n + 2 ^ 32 - front.length) % 2 ^ 32) =
        some (front.map some ++ z :: (back.map some ++ y :: tail)) := by
    have hdst : (front.length + 1) % 2 ^ 32 = front.length + 1 := Nat.mod_eq_of_lt (by omega)
    have hcount : (grown.n + 2 ^ 32 - front.length) % 2 ^ 32 = back.length := by
      rw [hg.n]
      omega
    rw [hdst, hcount, hptr, List.map_append, List.append_assoc, hmove]
  have hwrite : Slots.write (front.map some ++ z :: (back.map some ++ y :: tail)) front.length el =
      some (front.map some ++ some el :: (back.map some ++ y :: tail)) := by
    have hput := write_append (front.map some) z (back.map some ++ y :: tail) el
    rwa [List.length_map] at hput
  have hinsert : vectorInsert v el front.length = some { grown with
      ptr := front.map some ++ some el :: (back.map some ++ y :: tail)
      n := (front ++ back).length + 1 } := by
    rw [vectorInsert, hnext, Option.bind_some]
    dsimp only
    rw [hgrown, hmoved, Option.bind_some, hwrite, h.n]
    rfl
  refine ⟨_, hinsert, ⟨?_, ?_, y, tail, ?_⟩, hopts⟩
  · simp
    omega
  · have hsize := hg.size
    rw [hptr] at hsize
    simp at hsize ⊢
    omega
  · simp

theorem vectorRemove_spec {front back : List Nat} {el : Nat} (h : Holds v (front ++ el :: back))
    (hopts : v.opts &&& vectorKeep = 0) :
    ∃ v', vectorRemove v front.length = some (el, v') ∧ Holds v' (front ++ back) ∧
      v'.opts = v.opts := by
  obtain ⟨x, tail, hptr⟩ := h.slots
  obtain ⟨z, hmove⟩ := move_down (front.map some) (some el) (back.map some) (x :: tail)
  rw [List.length_map, List.length_map] at hmove
  have hslots : v.ptr = front.map some ++ some el :: (back.map some ++ x :: tail) := by
    rw [hptr]
    simp
  have hlen : v.n = front.length + back.length + 1 := by
    rw [h.n]
    simp
    omega
  have hread : Slots.read v.ptr front.length = some el := by
    have hat := read_append (front.map some) el (back.map some ++ x :: tail)
    rwa [List.length_map, ← hslots] at hat
  have hmoved : Slots.move v.ptr front.length (front.length + 1) (v.n - 1 - front.length) =
      some (front.map some ++ (back.map some ++ z :: x :: tail)) := by
    have hcount : v.n - 1 - front.length = back.length := by omega
    rw [hcount, hslots, hmove]
  have hremove : vectorRemove v front.length = some (el, { v with
      ptr := front.map some ++ (back.map some ++ z :: x :: tail), n := v.n - 1 }) := by
    rw [vectorRemove, if_neg (by omega), if_neg (not_not.mpr hopts)]
    dsimp only
    rw [if_neg (by simp [vectorUnordered]), prvVectorRemoveOrdered]
    dsimp only
    rw [hread, Option.bind_some, hmoved]
    rfl
  refine ⟨_, hremove, ⟨?_, ?_, z, x :: tail, ?_⟩, rfl⟩
  · simp
    omega
  · have hsize := h.size
    rw [hptr] at hsize
    simp at hsize ⊢
    omega
  · simp

theorem vectorAdd_full (h : Holds v l) (hfull : 2 ^ 31 ≤ l.length + 1) (el : Nat) :
    vectorAdd v el = none := by
  have hnext : intSum v.n 1 = none := if_neg (by rw [h.n]; omega)
  rw [vectorAdd, hnext]
  rfl

theorem vectorInsert_full (h : Holds v l) (hfull : 2 ^ 31 ≤ l.length + 1) (el index : Nat) :
    vectorInsert v el index = none := by
  have hnext : intSum v.n 1 = none := if_neg (by rw [h.n]; omega)
  rw [vectorInsert, hnext]
  rfl

theorem Holds.get {done rest : List Nat} {el : Nat} (h : Holds v (done ++ el :: rest)) :
    vectorGet v done.length = some el := by
  obtain ⟨x, tail, hptr⟩ := h.slots
  have hat := read_append (done.map some) el (rest.map some ++ x :: tail)
  rw [List.length_map] at hat
  rw [vectorGet, hptr, ← hat]
  simp

/-- A loop over the indices is a loop over the elements. -/
theorem Holds.foldlM_get {β : Type*} (h : Holds v l) (f : β → Nat → Option β) (b : β) :
    (List.range v.n).foldlM (fun b i => (vectorGet v i).bind (f b)) b = l.foldlM f b := by
  have hfrom : ∀ (rest done : List Nat) (b : β), Holds v (done ++ rest) →
      (List.range' done.length rest.length).foldlM (fun b i => (vectorGet v i).bind (f b)) b =
        rest.foldlM f b := by
    intro rest
    induction rest with
    | nil => exact fun done b _ => rfl
    | cons el rest ih =>
      intro done b h
      have h' : Holds v ((done ++ [el]) ++ rest) := by rwa [List.append_assoc]
      have hlen : (done ++ [el]).length = done.length + 1 := by simp
      rw [List.length_cons, List.range'_succ, List.foldlM_cons, List.foldlM_cons, h.get, Option.bind_some]
      refine bind_congr fun b' => ?_
      rw [← ih (done ++ [el]) b' h', hlen]
  rw [h.n, List.range_eq_range']
  exact hfrom l [] b h

/-- The elements one after the other. -/
def addEach (dest : Vector) (elements : List Nat) : Option Vector :=
  elements.foldlM (fun dest el => (vectorAdd dest el).map Prod.snd) dest

theorem addEach_cons (dest : Vector) (el : Nat) (elements : List Nat) :
    addEach dest (el :: elements) =
      ((vectorAdd dest el).map Prod.snd).bind fun dest => addEach dest elements := List.foldlM_cons

theorem addEach_spec (rest : List Nat) (h : Holds v l) (hlt : l.length + rest.length < 2 ^ 31) :
    ∃ v', addEach v rest = some v' ∧ Holds v' (l ++ rest) ∧ v'.opts = v.opts := by
  induction rest generalizing v l with
  | nil => exact ⟨v, rfl, by rwa [List.append_nil], rfl⟩
  | cons el rest ih =>
    rw [List.length_cons] at hlt
    obtain ⟨mid, hadd, hmid, hopts⟩ := vectorAdd_spec h (by omega) el
    have hlen : (l ++ [el]).length + rest.length < 2 ^ 31 := by
      rw [List.length_append, List.length_singleton]
      omega
    obtain ⟨v', hrest, hv', hopts'⟩ := ih hmid hlen
    refine ⟨v', ?_, by rwa [List.append_assoc] at hv', hopts'.trans hopts⟩
    rw [addEach_cons, hadd]
    exact hrest

theorem addEach_full (rest : List Nat) (h : Holds v l) (hl : l.length < 2 ^ 31)
    (hfull : 2 ^ 31 ≤ l.length + rest.length) : addEach v rest = none := by
  induction rest generalizing v l with
  | nil =>
    rw [List.length_nil] at hfull
    omega
  | cons el rest ih =>
    rw [List.length_cons] at hfull
    rw [addEach_cons]
    by_cases hlast : l.length + 1 < 2 ^ 31
    · obtain ⟨mid, hadd, hmid, -⟩ := vectorAdd_spec h hlast el
      rw [hadd]
      exact ih hmid (by simpa using hlast) (by simp; omega)
    · rw [vectorAdd_full h (by omega)]
      rfl

theorem vectorExtend_eq {ex : Vector} {elements : List Nat} (hex : Holds ex elements) (dest : Vector) :
    vectorExtend dest ex = addEach dest elements := hex.foldlM_get _ dest

/-! ### Runs -/

/-- A vector with its elements. -/
structure Filled where
  vector : Vector
  elements : List Nat
  holds : Holds vector elements

inductive VectorStep
  | add (el : Nat)
  | insert (el index : Nat)
  | remove (index : Nat)
  | extend (ex : Filled)

def step (self : Vector) : VectorStep → Option Vector
  | .add el => (vectorAdd self el).map Prod.snd
  | .insert el index => vectorInsert self el index
  | .remove index => (vectorRemove self index).map Prod.snd
  | .extend ex => vectorExtend self ex.vector

/-- The same operations on lists. -/
def apply (l : List Nat) : VectorStep → List Nat
  | .add el => l ++ [el]
  | .insert el index => l.insertIdx index el
  | .remove index => l.eraseIdx index
  | .extend ex => l ++ ex.elements

/-- An insertion is not behind the end. -/
def IndexOk (l : List Nat) : VectorStep → Prop
  | .insert _ index => index ≤ l.length
  | .add _ | .remove _ | .extend _ => True

instance IndexOk.decidable (l : List Nat) : (op : VectorStep) → Decidable (IndexOk l op)
  | .insert _ index => inferInstanceAs (Decidable (index ≤ l.length))
  | .add _ | .remove _ | .extend _ => isTrue trivial

/-- The number of elements is an `int`. -/
def Fits (l : List Nat) (op : VectorStep) : Prop := (apply l op).length < 2 ^ 31

instance Fits.decidable (l : List Nat) (op : VectorStep) : Decidable (Fits l op) :=
  inferInstanceAs (Decidable ((apply l op).length < 2 ^ 31))

theorem exists_split {α : Type*} {l : List α} {index : Nat} (h : index < l.length) :
    ∃ front el back, l = front ++ el :: back ∧ front.length = index ∧ l[index]? = some el := by
  refine ⟨l.take index, l[index], l.drop (index + 1), ?_, by simp; omega, by simp [h]⟩
  rw [List.getElem_cons_drop, List.take_append_drop]

theorem vectorRemove_in (h : Holds v l) (hkeep : v.opts &&& vectorKeep = 0) {index : Nat}
    (hindex : index < l.length) : ∃ el v', l[index]? = some el ∧ vectorRemove v index = some (el, v') ∧
      Holds v' (l.eraseIdx index) ∧ v'.opts = v.opts := by
  obtain ⟨front, el, back, rfl, rfl, hel⟩ := exists_split hindex
  obtain ⟨v', hremove, hv', hopts⟩ := vectorRemove_spec h hkeep
  exact ⟨el, v', hel, hremove, by rwa [eraseIdx_split], hopts⟩

theorem vectorRemove_out (h : Holds v l) {index : Nat} (hindex : l.length ≤ index) :
    vectorRemove v index = some (0, v) := if_pos (h.n ▸ hindex)

/-- While the elements fit, a step on the vector is the step on the list. -/
theorem step_fits (h : Holds v l) (hkeep : v.opts &&& vectorKeep = 0) {op : VectorStep}
    (hok : IndexOk l op) (hfits : Fits l op) :
    ∃ v', step v op = some v' ∧ Holds v' (apply l op) ∧ v'.opts = v.opts := by
  cases op with
  | add el =>
    obtain ⟨v', hadd, hspec⟩ := vectorAdd_spec h (by simpa [Fits, apply] using hfits) el
    exact ⟨v', by rw [step, hadd]; rfl, hspec⟩
  | insert el index =>
    have hindex : index ≤ l.length := hok
    have hlen : l.length + 1 < 2 ^ 31 := by
      rwa [Fits, apply, List.length_insertIdx_of_le_length hindex] at hfits
    have hsplit : l.take index ++ l.drop index = l := List.take_append_drop index l
    have htake : (l.take index).length = index := List.length_take_of_le hindex
    rw [← hsplit] at h hlen
    obtain ⟨v', hinsert, hv', hopts⟩ := vectorInsert_spec h hlen el
    have hlist : apply l (.insert el index) = l.take index ++ el :: l.drop index := by
      have hput := insertIdx_split (l.take index) (l.drop index) el
      rwa [hsplit, htake] at hput
    rw [htake] at hinsert
    exact ⟨v', hinsert, by rwa [hlist], hopts⟩
  | remove index =>
    by_cases hindex : index < l.length
    · obtain ⟨el, v', -, hremove, hspec⟩ := vectorRemove_in h hkeep hindex
      exact ⟨v', by rw [step, hremove]; rfl, hspec⟩
    · have hout : l.length ≤ index := Nat.le_of_not_lt hindex
      refine ⟨v, by rw [step, vectorRemove_out h hout]; rfl, ?_, rfl⟩
      rwa [apply, List.eraseIdx_of_length_le hout]
  | extend ex =>
    obtain ⟨v', hextend, hspec⟩ := addEach_spec ex.elements h (by simpa [Fits, apply] using hfits)
    exact ⟨v', by rw [step, vectorExtend_eq ex.holds]; exact hextend, hspec⟩

/-- Where they do not, the step is undefined. -/
theorem step_full (h : Holds v l) (hl : l.length < 2 ^ 31) {op : VectorStep} (hok : IndexOk l op)
    (hfull : ¬ Fits l op) : step v op = none := by
  cases op with
  | add el => rw [step, vectorAdd_full h (by simpa [Fits, apply] using hfull)]; rfl
  | insert el index =>
    have hindex : index ≤ l.length := hok
    rw [Fits, apply, List.length_insertIdx_of_le_length hindex] at hfull
    exact vectorInsert_full h (by omega) el index
  | remove index =>
    have hle := List.length_eraseIdx_le l index
    exact absurd (Nat.lt_of_le_of_lt hle hl) hfull
  | extend ex =>
    rw [step, vectorExtend_eq ex.holds]
    exact addEach_full ex.elements h hl (by simpa [Fits, apply] using hfull)

/-- The steps on lists, as a run. -/
def listStep (l : List Nat) (op : VectorStep) : Option (List Nat) := some (apply l op)

theorem run_spec (ops : List VectorStep) (h : Holds v l) (hl : l.length < 2 ^ 31)
    (hkeep : v.opts &&& vectorKeep = 0) (hok : GuardedRun.AllOk listStep IndexOk l ops) :
    ((∃ v', GuardedRun.run step v ops = some v') ↔ GuardedRun.AllOk listStep Fits l ops) ∧
      ∀ v', GuardedRun.run step v ops = some v' →
        Holds v' (ops.foldl apply l) ∧ v'.opts = v.opts := by
  let R : Vector → List Nat → Prop := fun v' l' => Holds v' l' ∧ l'.length < 2 ^ 31 ∧ v'.opts = v.opts
  have hfits : ∀ {v' l' op}, R v' l' → IndexOk l' op → Fits l' op →
      ∃ v'', step v' op = some v'' ∧ R v'' (apply l' op) := by
    rintro v' l' op ⟨hv, hlen, hopts⟩ hindex hfits
    obtain ⟨v'', hstep, hv'', hopts'⟩ := step_fits hv (by rwa [hopts]) hindex hfits
    exact ⟨v'', hstep, hv'', hfits, hopts'.trans hopts⟩
  have hfull : ∀ {v' l' op}, R v' l' → IndexOk l' op → ¬ Fits l' op → step v' op = none :=
    fun ⟨hv, hlen, hopts⟩ hindex hfull => step_full hv hlen hindex hfull
  obtain ⟨hruns, hlast⟩ := GuardedRun.run_simulates apply R IndexOk Fits hfits hfull ⟨h, hl, rfl⟩ ops hok
  exact ⟨hruns, fun v' hrun => ⟨(hlast v' hrun).1, (hlast v' hrun).2.2⟩⟩

/-- A run on a vector without VECTOR_KEEP, with insertions no further than the end, is
defined as long as the number of elements is an `int`, and what it leaves is the list,
with room for one more element. -/
theorem vector_refines_list {opts : Nat} (hkeep : opts &&& vectorKeep = 0) (ops : List VectorStep)
    (hok : GuardedRun.AllOk listStep IndexOk [] ops) :
    ((∃ v, GuardedRun.run step (vectorNew opts) ops = some v) ↔
        GuardedRun.AllOk listStep Fits [] ops) ∧
      ∀ v, GuardedRun.run step (vectorNew opts) ops = some v →
        let l := ops.foldl apply []
        v.n = l.length ∧ v.ptr.take v.n = l.map some ∧ v.n < v.s ∧ v.ptr.length = v.s ∧
          (∀ index, v.n ≤ index → vectorRemove v index = some (0, v)) ∧
          ∀ index, index < v.n → (vectorRemove v index).map Prod.fst = l[index]? := by
  obtain ⟨hruns, hholds⟩ := run_spec ops (holds_new opts) (Nat.two_pow_pos 31) hkeep hok
  refine ⟨hruns, fun v hrun => ?_⟩
  obtain ⟨h, hopts⟩ := hholds v hrun
  refine ⟨h.n, h.take, h.n_lt, h.size, fun index hindex => ?_, fun index hindex => ?_⟩
  · exact vectorRemove_out h (h.n ▸ hindex)
  · have hkeep' : v.opts &&& vectorKeep = 0 := by rwa [hopts]
    obtain ⟨el, v', hel, hremove, -⟩ := vectorRemove_in h hkeep' (h.n ▸ hindex)
    rw [hel, hremove]
    rfl

theorem vector_refines_list_ordered : ∃ v,
    GuardedRun.run step (vectorNew vectorOrdered) [.add 5, .insert 6 0, .add 7, .remove 1] = some v ∧
      v.ptr.take v.n = [some 6, some 7] := by
  have hrefines := vector_refines_list (show vectorOrdered &&& vectorKeep = 0 by decide)
    [.add 5, .insert 6 0, .add 7, .remove 1] (by decide)
  obtain ⟨v, hrun⟩ := hrefines.1.mpr (by decide)
  exact ⟨v, hrun, (hrefines.2 v hrun).2.1⟩

section Additions

variable (el : Nat)

theorem indexOk_additions (n : Nat) (l : List Nat) :
    GuardedRun.AllOk listStep IndexOk l (List.replicate n (.add el)) := by
  induction n generalizing l with
  | zero => trivial
  | succ n ih => exact ⟨trivial, fun t _ => ih t⟩

theorem fits_additions {n : Nat} (hl : l.length < 2 ^ 31)
    (h : GuardedRun.AllOk listStep Fits l (List.replicate n (.add el))) : l.length + n < 2 ^ 31 := by
  induction n generalizing l with
  | zero => exact hl
  | succ n ih =>
    have hrest := ih h.1 (h.2 _ rfl)
    rw [apply, List.length_append, List.length_singleton] at hrest
    omega

end Additions

/-- The index of the next element is computed as an `int`. -/
theorem full_vector : ¬ ∀ (opts : Nat) (ops : List VectorStep), opts &&& vectorKeep = 0 →
    GuardedRun.AllOk listStep IndexOk [] ops →
      ∃ v, GuardedRun.run step (vectorNew opts) ops = some v ∧ Holds v (ops.foldl apply []) := by
  intro hall
  have hok := indexOk_additions 1 (2 ^ 31) []
  obtain ⟨v, hrun, -⟩ := hall vectorUnordered _ rfl hok
  have hruns := (run_spec _ (holds_new vectorUnordered) (Nat.two_pow_pos 31) rfl hok).1
  have hfits := fits_additions 1 (l := []) (Nat.two_pow_pos 31) (hruns.mp ⟨v, hrun⟩)
  exact absurd hfits (by simp)

end Vector

end AutoGentoo
