import AutoGentoo.GuardedRun
import AutoGentoo.StringVector
import AutoGentoo.VectorRefinement

/-! A string vector against the list of its strings. -/

namespace AutoGentoo

open OwnedCells

/-- The address of a new string is the one `strdup` returns. -/
inductive StringVectorOp
  | add (string : List Char) (x : Nat)
  | insert (string : List Char) (index x : Nat)
  | set (string : List Char) (index x : Nat)
  | remove (index : Nat)
  deriving DecidableEq, Repr

namespace StringVector

def step (fuel : Nat) (self : StringVector) : StringVectorOp → Option StringVector
  | .add string x => self.stringVectorAdd string x
  | .insert string index x => self.stringVectorInsert string index x
  | .set string index x => self.stringVectorSet fuel string index x
  | .remove index => self.stringVectorRemove index

/-- The address is new. -/
def OpOk (self : StringVector) : StringVectorOp → Prop
  | .add _ x | .insert _ _ x => Fresh self.strings x
  | .set _ _ _ | .remove _ => True

def apply (l : List (List Char)) : StringVectorOp → List (List Char)
  | .add string _ => l ++ [string]
  | .insert string index _ => l.insertIdx index string
  | .set string index _ => l.set index string
  | .remove index => l.eraseIdx index

def listStep (l : List (List Char)) (op : StringVectorOp) : Option (List (List Char)) := some (apply l op)

def IndexOk (l : List (List Char)) : StringVectorOp → Prop
  | .add _ _ => True
  | .insert _ index _ => index ≤ l.length
  | .set _ index _ | .remove index => index < l.length

instance IndexOk.decidable (l : List (List Char)) : (op : StringVectorOp) → Decidable (IndexOk l op)
  | .add _ _ => isTrue trivial
  | .insert _ index _ => inferInstanceAs (Decidable (index ≤ l.length))
  | .set _ index _ | .remove index => inferInstanceAs (Decidable (index < l.length))

def Adds : StringVectorOp → Prop
  | .add _ _ | .insert _ _ _ => True
  | .set _ _ _ | .remove _ => False

/-- The first `n` slots are within the allocation and hold these strings, each slot its own,
and no other string is allocated. -/
structure Agrees (vector : StringVector) (l : List (List Char)) : Prop where
  n : vector.n = l.length
  capacity : vector.n ≤ vector.ptr.length
  strings : ∃ cells : List (Nat × List Char), cells.map Prod.snd = l ∧
    vector.ptr.take vector.n = (cells.map Prod.fst).map some ∧ Has vector.strings cells ∧
    Only vector.strings cells

/-- The operations end, and what they leave is what they do to a list. -/
def Meets (self : StringVector) (l : List (List Char)) (ops : List StringVectorOp) : Prop :=
  ∃ fuel after, GuardedRun.run (step fuel) self ops = some after ∧ Agrees after (ops.foldl apply l)

/-- A vector in its first allocation, which has room for one string more. -/
structure Room (vector : StringVector) (cells : List (Nat × List Char)) : Prop where
  n : vector.n = cells.length
  s : vector.s = 32
  length : vector.ptr.length = 32
  slots : ∃ x tail, vector.ptr = (cells.map Prod.fst).map some ++ x :: tail
  has : Has vector.strings cells
  only : Only vector.strings cells

variable {self after : StringVector} {l : List (List Char)} {cells : List (Nat × List Char)}

theorem room_new : Room stringVectorNew [] :=
  ⟨rfl, rfl, rfl, ⟨none, List.replicate 31 none, rfl⟩, has_nil _, fun _ hx => absurd rfl hx⟩

theorem Room.lt (h : Room self cells) : cells.length < 32 := by
  obtain ⟨x, tail, hptr⟩ := h.slots
  have hlen := h.length
  rw [hptr] at hlen
  simp at hlen
  omega

theorem Room.agrees (h : Room self cells) : Agrees self (cells.map Prod.snd) := by
  obtain ⟨x, tail, hptr⟩ := h.slots
  have hlt := h.lt
  refine ⟨by rw [h.n, List.length_map], by rw [h.n, h.length]; omega, cells, rfl, ?_, h.has, h.only⟩
  rw [h.n, hptr]
  exact List.take_left' (by simp)

theorem Room.slots_two (h : Room self cells) (hlt : cells.length + 1 < 32) :
    ∃ x y tail, self.ptr = (cells.map Prod.fst).map some ++ x :: y :: tail := by
  obtain ⟨x, tail, hptr⟩ := h.slots
  cases tail with
  | nil =>
    have hlen := h.length
    rw [hptr] at hlen
    simp at hlen
    omega
  | cons y tail => exact ⟨x, y, tail, hptr⟩

theorem add_spec (h : Room self cells) (hlt : cells.length + 1 < 32) {x : Nat} (hx : Fresh self.strings x)
    (string : List Char) :
    ∃ after, self.stringVectorAdd string x = some after ∧ Room after (cells ++ [(x, string)]) := by
  obtain ⟨z, y, tail, hptr⟩ := h.slots_two hlt
  have hgrow : ¬ self.s = (self.n + 1) % 2 ^ 32 := by
    rw [h.s, h.n]
    omega
  have hwrite : Slots.write self.ptr self.n x =
      some ((cells.map Prod.fst).map some ++ some x :: y :: tail) := by
    have hput := Vector.write_append ((cells.map Prod.fst).map some) z (y :: tail) x
    rwa [List.length_map, List.length_map, ← h.n, ← hptr] at hput
  have hadd : self.stringVectorAdd string x = some { self with
      ptr := (cells.map Prod.fst).map some ++ some x :: y :: tail
      n := (self.n + 1) % 2 ^ 32
      strings := put self.strings x string } := by
    rw [stringVectorAdd, if_neg hgrow, Option.bind_some, hwrite]
    rfl
  have hperm : ((x, string) :: cells).Perm (cells ++ [(x, string)]) :=
    (List.perm_append_singleton (x, string) cells).symm
  refine ⟨_, hadd, ?_, h.s, ?_, ⟨y, tail, by simp⟩, (h.has.alloc hx string).perm hperm,
    (h.only.alloc x string).perm hperm⟩
  · show (self.n + 1) % 2 ^ 32 = _
    rw [h.n, List.length_append, List.length_singleton]
    omega
  · have hlen := h.length
    rw [hptr] at hlen
    simpa using hlen

theorem insert_spec {front back : List (Nat × List Char)} (h : Room self (front ++ back))
    (hlt : (front ++ back).length + 1 < 32) {x : Nat} (hx : Fresh self.strings x) (string : List Char) :
    ∃ after, self.stringVectorInsert string front.length x = some after ∧
      Room after (front ++ (x, string) :: back) := by
  obtain ⟨w, y, tail, hptr⟩ := h.slots_two hlt
  have hlen : (front ++ back).length = front.length + back.length := List.length_append
  have hgrow : ¬ self.s ≤ (self.n + 1) % 2 ^ 32 := by
    rw [h.s, h.n]
    omega
  obtain ⟨z, hmove⟩ := Vector.move_up ((front.map Prod.fst).map some) ((back.map Prod.fst).map some) w (y :: tail)
  simp only [List.length_map] at hmove
  have hmoved : Slots.move self.ptr ((front.length + 1) % 2 ^ 32) front.length
      ((self.n + 2 ^ 32 - front.length) % 2 ^ 32) =
        some ((front.map Prod.fst).map some ++ z :: ((back.map Prod.fst).map some ++ y :: tail)) := by
    have hdst : (front.length + 1) % 2 ^ 32 = front.length + 1 := Nat.mod_eq_of_lt (by omega)
    have hcount : (self.n + 2 ^ 32 - front.length) % 2 ^ 32 = back.length := by
      rw [h.n]
      omega
    rw [hdst, hcount, hptr, List.map_append, List.map_append, List.append_assoc, hmove]
  have hwrite : Slots.write ((front.map Prod.fst).map some ++ z :: ((back.map Prod.fst).map some ++ y :: tail))
      front.length x =
        some ((front.map Prod.fst).map some ++ some x :: ((back.map Prod.fst).map some ++ y :: tail)) := by
    have hput := Vector.write_append ((front.map Prod.fst).map some) z
      ((back.map Prod.fst).map some ++ y :: tail) x
    rwa [List.length_map, List.length_map] at hput
  have hinsert : self.stringVectorInsert string front.length x = some { self with
      ptr := (front.map Prod.fst).map some ++ some x :: ((back.map Prod.fst).map some ++ y :: tail)
      n := (self.n + 1) % 2 ^ 32
      strings := put self.strings x string } := by
    rw [stringVectorInsert, if_neg hgrow, Option.bind_some, hmoved, Option.bind_some, hwrite]
    rfl
  refine ⟨_, hinsert, ?_, h.s, ?_, ⟨y, tail, by simp⟩,
    (h.has.alloc hx string).perm List.perm_middle.symm, (h.only.alloc x string).perm List.perm_middle.symm⟩
  · show (self.n + 1) % 2 ^ 32 = _
    rw [h.n]
    simp
    omega
  · have hsize := h.length
    rw [hptr] at hsize
    simp at hsize ⊢
    omega

theorem add_full (h : Room self cells) (hfull : 32 ≤ cells.length + 1) (string : List Char) (x : Nat) :
    self.stringVectorAdd string x = none := by
  have hlt := h.lt
  have hgrow : self.s = (self.n + 1) % 2 ^ 32 := by
    rw [h.s, h.n]
    omega
  rw [stringVectorAdd, if_pos hgrow, vectorAllocate_eq]
  rfl

theorem insert_full (h : Room self cells) (hfull : 32 ≤ cells.length + 1) (string : List Char)
    (index x : Nat) : self.stringVectorInsert string index x = none := by
  have hlt := h.lt
  have hgrow : self.s ≤ (self.n + 1) % 2 ^ 32 := by
    rw [h.s, h.n]
    omega
  rw [stringVectorInsert, if_pos hgrow, vectorAllocate_eq]
  rfl

/-- The loop is entered for every index that is in use. -/
theorem set_none {index : Nat} (hindex : index ≤ self.s) (fuel : Nat) (string : List Char) (x : Nat) :
    self.stringVectorSet fuel string index x = none := by
  have hloop : setLoop fuel self index = none := by
    cases fuel with
    | zero => rfl
    | succ fuel =>
      rw [setLoop, if_pos hindex, vectorAllocate_eq]
      rfl
  rw [stringVectorSet, hloop]
  rfl

/-- The vector counts a string too many. -/
structure Behind (vector : StringVector) (l : List (List Char)) : Prop where
  lt : l.length < vector.n
  le : vector.n ≤ 32
  s : vector.s = 32
  length : vector.ptr.length = 32

theorem length_write {slots slots' : Slots} {i x : Nat} (h : Slots.write slots i x = some slots') :
    slots'.length = slots.length ∧ i < slots.length := by
  rw [Slots.write] at h
  split_ifs at h with hi
  rw [← Option.some.inj h, List.length_set]
  exact ⟨rfl, hi⟩

theorem length_move {slots slots' : Slots} {dst src count : Nat}
    (h : Slots.move slots dst src count = some slots') :
    slots'.length = slots.length ∧ dst + count ≤ slots.length := by
  rw [Slots.move] at h
  split_ifs at h with hbound
  rw [← Option.some.inj h]
  simp
  omega

theorem remove_keeps {index : Nat} (h : self.stringVectorRemove index = some after) :
    after.n = self.n ∧ after.s = self.s ∧ after.ptr.length = self.ptr.length := by
  obtain ⟨r, hr, hfree⟩ := Option.bind_eq_some_iff.mp h
  obtain ⟨strings, -, rfl⟩ := Option.map_eq_some_iff.mp hfree
  obtain ⟨out, -, hread⟩ := Option.bind_eq_some_iff.mp hr
  obtain ⟨n, -, hmove⟩ := Option.bind_eq_some_iff.mp hread
  split_ifs at hmove
  obtain ⟨ptr, hptr, rfl⟩ := Option.map_eq_some_iff.mp hmove
  exact ⟨rfl, rfl, (length_move hptr).1⟩

theorem grown_eq {check : Prop} [Decidable check] {grown : StringVector}
    (h : (if check then self.vectorAllocate else some self) = some grown) : self = grown := by
  split_ifs at h
  · exact absurd h (by simp [vectorAllocate_eq])
  · exact Option.some.inj h

theorem Behind.step {fuel : Nat} (h : Behind self l) {op : StringVectorOp} (hindex : IndexOk l op)
    (hstep : self.step fuel op = some after) : Behind after (apply l op) := by
  obtain ⟨hlt, hle, hs, hlength⟩ := h
  cases op with
  | add string x =>
    obtain ⟨grown, hgrown, hwrite⟩ := Option.bind_eq_some_iff.mp hstep
    obtain rfl := grown_eq hgrown
    obtain ⟨ptr, hptr, rfl⟩ := Option.map_eq_some_iff.mp hwrite
    obtain ⟨hsame, hin⟩ := length_write hptr
    refine ⟨?_, ?_, hs, hsame.trans hlength⟩
    · simp [apply]
      omega
    · show (self.n + 1) % 2 ^ 32 ≤ 32
      omega
  | insert string index x =>
    have hindex : index ≤ l.length := hindex
    obtain ⟨grown, hgrown, hmoves⟩ := Option.bind_eq_some_iff.mp hstep
    obtain rfl := grown_eq hgrown
    obtain ⟨moved, hmove, hwrite⟩ := Option.bind_eq_some_iff.mp hmoves
    obtain ⟨ptr, hptr, rfl⟩ := Option.map_eq_some_iff.mp hwrite
    obtain ⟨hsame, hin⟩ := length_move hmove
    refine ⟨?_, ?_, hs, (length_write hptr).1.trans (hsame.trans hlength)⟩
    · rw [apply, List.length_insertIdx_of_le_length hindex]
      show l.length + 1 < (self.n + 1) % 2 ^ 32
      omega
    · show (self.n + 1) % 2 ^ 32 ≤ 32
      omega
  | set string index x =>
    have hindex : index < l.length := hindex
    rw [StringVector.step, set_none (by omega)] at hstep
    exact absurd hstep (by simp)
  | remove index =>
    obtain ⟨hn, hs', hlength'⟩ := remove_keeps hstep
    have hle' := List.length_eraseIdx_le l index
    exact ⟨by rw [apply, hn]; omega, hn ▸ hle, hs'.trans hs, hlength'.trans hlength⟩

theorem Behind.run {fuel : Nat} (h : Behind self l) (ops : List StringVectorOp)
    (hindex : GuardedRun.AllOk listStep IndexOk l ops)
    (hrun : GuardedRun.run (StringVector.step fuel) self ops = some after) :
    Behind after (ops.foldl apply l) := by
  induction ops generalizing self l with
  | nil =>
    obtain rfl := Option.some.inj hrun
    exact h
  | cons op ops ih =>
    obtain ⟨mid, hstep, hrest⟩ := Option.bind_eq_some_iff.mp hrun
    exact ih (h.step hindex.1 hstep) (hindex.2 _ rfl) hrest

theorem insert_at {string : List Char} {index x : Nat} (h : Room self cells) (hindex : index ≤ cells.length)
    (hlt : cells.length + 1 < 32) (hx : Fresh self.strings x) :
    ∃ after cells', self.stringVectorInsert string index x = some after ∧ Room after cells' ∧
      cells'.length = cells.length + 1 ∧
      cells'.map Prod.snd = (cells.map Prod.snd).insertIdx index string := by
  have hsplit : cells.take index ++ cells.drop index = cells := List.take_append_drop index cells
  have htake : (cells.take index).length = index := List.length_take_of_le hindex
  have hroom : Room self (cells.take index ++ cells.drop index) := by rwa [hsplit]
  obtain ⟨after, hinsert, hafter⟩ := insert_spec hroom (by rwa [hsplit]) hx string
  have hput := Vector.insertIdx_split ((cells.take index).map Prod.snd) ((cells.drop index).map Prod.snd) string
  rw [← List.map_append, hsplit, List.length_map, htake] at hput
  refine ⟨after, _, by rwa [htake] at hinsert, hafter, ?_, by rw [hput]; simp⟩
  rw [List.length_append, List.length_cons, ← Nat.add_assoc, ← List.length_append, hsplit]

/-- What is undefined is so with any number of turns. -/
theorem not_meets_of_none {op : StringVectorOp} {ops : List StringVectorOp}
    (hnone : ∀ fuel, self.step fuel op = none) : ¬ Meets self l (op :: ops) := by
  rintro ⟨fuel, after, hrun, -⟩
  rw [GuardedRun.run, hnone fuel] at hrun
  exact absurd hrun (by simp)

theorem meets_cons {op : StringVectorOp} {ops : List StringVectorOp} {mid : StringVector}
    (hstep : ∀ fuel, self.step fuel op = some mid) : Meets self l (op :: ops) ↔ Meets mid (apply l op) ops := by
  simp only [Meets, GuardedRun.run, hstep, Option.bind_some, List.foldl_cons]

/-- After a removal the vector counts a string too many for good. -/
theorem not_meets_remove (h : Room self cells) {index : Nat} {ops : List StringVectorOp}
    (hindex : GuardedRun.AllOk listStep IndexOk (cells.map Prod.snd) (.remove index :: ops)) :
    ¬ Meets self (cells.map Prod.snd) (.remove index :: ops) := by
  rintro ⟨fuel, after, hrun, hagrees⟩
  obtain ⟨mid, hstep, hrest⟩ := Option.bind_eq_some_iff.mp hrun
  obtain ⟨hn, hs, hlength⟩ := remove_keeps hstep
  have hin : index < (cells.map Prod.snd).length := hindex.1
  have hroom := h.lt
  have hbehind : Behind mid (apply (cells.map Prod.snd) (.remove index)) := by
    refine ⟨?_, by rw [hn, h.n]; omega, hs.trans h.s, hlength.trans h.length⟩
    rw [apply, List.length_eraseIdx_of_lt hin, hn, h.n]
    rw [List.length_map] at hin ⊢
    omega
  have hlt := (hbehind.run ops (hindex.2 _ rfl) hrest).lt
  have hagree := hagrees.n
  rw [List.foldl_cons] at hagree
  omega

theorem meets_iff (h : Room self cells) (ops : List StringVectorOp)
    (hindex : GuardedRun.AllOk listStep IndexOk (cells.map Prod.snd) ops)
    (hok : ∀ fuel, GuardedRun.AllOk (step fuel) OpOk self ops) :
    Meets self (cells.map Prod.snd) ops ↔ (∀ op ∈ ops, Adds op) ∧ cells.length + ops.length < 32 := by
  induction ops generalizing self cells with
  | nil => exact iff_of_true ⟨0, self, rfl, h.agrees⟩ ⟨by simp, h.lt⟩
  | cons op ops ih =>
    -- an addition with room for it leads to the rest of the run
    have hadds : ∀ {mid : StringVector} {cells' : List (Nat × List Char)}, Adds op →
        (∀ fuel, self.step fuel op = some mid) → Room mid cells' → cells'.length = cells.length + 1 →
        cells'.map Prod.snd = apply (cells.map Prod.snd) op →
        (Meets self (cells.map Prod.snd) (op :: ops) ↔
          (∀ op' ∈ op :: ops, Adds op') ∧ cells.length + (op :: ops).length < 32) := by
      intro mid cells' hop hstep hmid hlen happly
      have hrest := ih hmid (by rw [happly]; exact hindex.2 _ rfl) fun fuel => (hok fuel).2 mid (hstep fuel)
      rw [meets_cons hstep, ← happly, hrest, List.forall_mem_cons, and_iff_right hop, List.length_cons, hlen]
      refine and_congr_right fun _ => ?_
      omega
    have hfull : ¬ cells.length + 1 < 32 →
        ¬ ((∀ op' ∈ op :: ops, Adds op') ∧ cells.length + (op :: ops).length < 32) := by
      rw [List.length_cons]
      omega
    cases op with
    | add string x =>
      by_cases hlt : cells.length + 1 < 32
      · obtain ⟨mid, hadd, hmid⟩ := add_spec h hlt ((hok 0).1) string
        exact hadds trivial (fun _ => hadd) hmid (by simp) (by simp [apply])
      · exact iff_of_false (not_meets_of_none fun _ => add_full h (by omega) string x) (hfull hlt)
    | insert string index x =>
      by_cases hlt : cells.length + 1 < 32
      · have hle : index ≤ cells.length := by simpa [IndexOk] using hindex.1
        obtain ⟨mid, cells', hinsert, hmid, hlen, hmap⟩ := insert_at h hle hlt (hok 0).1
        exact hadds trivial (fun _ => hinsert) hmid hlen hmap
      · exact iff_of_false (not_meets_of_none fun _ => insert_full h (by omega) string index x) (hfull hlt)
    | set string index x =>
      have hle : index ≤ self.s := by
        have hin : index < cells.length := by simpa [IndexOk] using hindex.1
        have hroom := h.lt
        rw [h.s]
        omega
      exact iff_of_false (not_meets_of_none fun fuel => set_none hle fuel string x)
        fun hall => hall.1 _ List.mem_cons_self
    | remove index =>
      exact iff_of_false (not_meets_remove h hindex) fun hall => hall.1 _ List.mem_cons_self

/-- The operations on a new vector are those on the list of its strings just if they add
31 strings at most and do nothing else. -/
theorem string_vector_refines_list_iff (ops : List StringVectorOp)
    (hindex : GuardedRun.AllOk listStep IndexOk [] ops)
    (hok : ∀ fuel, GuardedRun.AllOk (step fuel) OpOk stringVectorNew ops) :
    Meets stringVectorNew [] ops ↔ (∀ op ∈ ops, Adds op) ∧ ops.length ≤ 31 := by
  rw [show ([] : List (List Char)) = ([] : List (Nat × List Char)).map Prod.snd from rfl,
    meets_iff room_new ops hindex hok, List.length_nil, Nat.zero_add]
  exact and_congr_right fun _ => Nat.lt_succ_iff

theorem string_vector_refines_list_inserted :
    Meets stringVectorNew [] [.add "a".toList 1, .insert "b".toList 0 2] := by
  refine (string_vector_refines_list_iff [.add "a".toList 1, .insert "b".toList 0 2] (by decide)
    fun fuel => ⟨⟨by decide, rfl⟩, fun t ht => ?_⟩).mpr ⟨by simp [Adds], by decide⟩
  obtain rfl := Option.some.inj ht
  exact ⟨⟨by decide, rfl⟩, fun _ _ => trivial⟩

theorem removed_string_counted : ¬ ∀ ops : List StringVectorOp, GuardedRun.AllOk listStep IndexOk [] ops →
    (∀ fuel, GuardedRun.AllOk (step fuel) OpOk stringVectorNew ops) → Meets stringVectorNew [] ops := by
  intro hall
  have hindex : GuardedRun.AllOk listStep IndexOk [] [.add "a".toList 1, .remove 0] := by decide
  have hok : ∀ fuel, GuardedRun.AllOk (step fuel) OpOk stringVectorNew [.add "a".toList 1, .remove 0] :=
    fun fuel => ⟨⟨by decide, rfl⟩, fun t _ => ⟨trivial, fun _ _ => trivial⟩⟩
  have hadds := ((meets_iff room_new _ hindex hok).mp (hall _ hindex hok)).1
  exact hadds (.remove 0) (by simp)

end StringVector

end AutoGentoo
