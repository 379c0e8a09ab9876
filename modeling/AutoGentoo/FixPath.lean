import AutoGentoo.MetadataFile
import Mathlib.Data.List.Destutter
import Mathlib.Data.List.Infix

/-! `fix_path`: the loop that takes out the second of two slashes, over the bytes of the
string alone. Its index is a U32, the length a size_t. -/

namespace AutoGentoo

/-- There is no result where the bytes read and the bytes written overlap. -/
def strcpy (ptr : List Char) (dst src : Nat) : Option (List Char) :=
  let text := cString (ptr.drop src)
  if src + text.length < ptr.length ∧ dst + text.length < ptr.length ∧
      (dst + text.length < src ∨ src + text.length < dst) then
    some (ptr.take dst ++ text ++ nul :: ptr.drop (dst + text.length + 1))
  else none

structure FixPath where
  ptr : List Char
  n : Nat
  i : Nat
  deriving DecidableEq, Repr

namespace FixPath

/-- The text from the second slash on goes over the first. -/
def removeSlash (self : FixPath) : Option FixPath :=
  (strcpy self.ptr ((self.i + 2 ^ 32 - 1) % 2 ^ 32) self.i).bind fun ptr =>
    match self.n with
    | 0 => none
    | n + 1 => if n < ptr.length then some { self with ptr := ptr.set n nul, n := n } else none

def turn (self : FixPath) : Option FixPath :=
  (self.ptr[self.i]?).bind fun c =>
    if c = '/' then
      (self.ptr[(self.i + 2 ^ 32 - 1) % 2 ^ 32]?).bind fun last =>
        if last = '/' then removeSlash self else some self
    else some self

/-- There is no result where the loop does not end within so many turns, or leaves the bytes. -/
def loop : Nat → FixPath → Option (List Char)
  | 0, _ => none
  | fuel + 1, self =>
    if self.i = self.n then some self.ptr
    else self.turn.bind fun self => loop fuel { self with i := (self.i + 1) % 2 ^ 32 }

end FixPath

/-- The bytes that are left. -/
def fixPath (fuel : Nat) (ptr : List Char) : Option (List Char) :=
  FixPath.loop fuel { ptr := ptr, n := (cString ptr).length, i := 1 }

/-- Two characters that are not both slashes. -/
def NotBothSlashes (a b : Char) : Prop := ¬ (a = '/' ∧ b = '/')

instance : DecidableRel NotBothSlashes := fun a b => inferInstanceAs (Decidable (¬ (a = '/' ∧ b = '/')))

/-- Of slashes that follow each other the first is kept. -/
def collapse (s : List Char) : List Char := s.destutter NotBothSlashes

/-- The loop ends without leaving the string, and leaves it collapsed. -/
def Collapses (s : List Char) : Prop :=
  ∃ fuel ptr, fixPath fuel (s ++ [nul]) = some ptr ∧ cString ptr = collapse s

/-- Some character, no two slashes that follow each other, and a length that the index
can reach. -/
structure PathOk (s : List Char) : Prop where
  nonempty : s ≠ []
  apart : ¬ ['/', '/'] <:+: s
  length : s.length < 2 ^ 32

theorem cString_text {text : List Char} (h : nul ∉ text) (rest : List Char) :
    cString (text ++ nul :: rest) = text := by
  have hne : ∀ c ∈ text, decide (c ≠ nul) = true := fun c hc => decide_eq_true fun he => h (he ▸ hc)
  rw [cString, List.takeWhile_append_of_pos hne]
  simp

theorem isChain_of_apart {s : List Char} (h : ¬ ['/', '/'] <:+: s) : s.IsChain NotBothSlashes := by
  induction s with
  | nil => exact List.IsChain.nil
  | cons a s ih =>
    have htail := ih fun hin => h (List.infix_cons hin)
    cases s with
    | nil => exact List.IsChain.singleton a
    | cons b s =>
      refine List.IsChain.cons_cons (fun hboth => h ?_) htail
      exact ⟨[], s, by rw [hboth.1, hboth.2]; rfl⟩

/-- Where nothing follows a slash that is one, nothing is to be done. -/
theorem collapse_apart {s : List Char} (h : ¬ ['/', '/'] <:+: s) : collapse s = s :=
  List.destutter_of_isChain NotBothSlashes s (isChain_of_apart h)

namespace FixPath

/-- The loop at an index of a text that still is as it came. -/
def onText (text : List Char) (i : Nat) : FixPath where
  ptr := text ++ [nul]
  n := text.length
  i := i

variable {front rest text : List Char} {i : Nat}

theorem before_index (h : i < 2 ^ 32) : (i + 1 + 2 ^ 32 - 1) % 2 ^ 32 = i := by omega

theorem cString_text_drop (hnul : nul ∉ text) (hi : i ≤ text.length) :
    cString ((text ++ [nul]).drop i) = text.drop i := by
  rw [List.drop_append_of_le_length hi]
  exact cString_text (fun hm => hnul (List.mem_of_mem_drop hm)) []

/-- The byte before a character that is not the first is where its text would go, and the
text reaches back to itself. -/
theorem strcpy_back (hnul : nul ∉ text) (hi : i + 1 < text.length) :
    strcpy (text ++ [nul]) i (i + 1) = none := by
  rw [strcpy, cString_text_drop hnul (Nat.le_of_lt hi), if_neg]
  rintro ⟨-, -, hapart⟩
  rw [List.length_drop] at hapart
  omega

/-- Behind the index's last value the first character is looked at again; its text is too
long to end before the byte it would go to. -/
theorem strcpy_around (hnul : nul ∉ text) (hlong : 2 ^ 32 ≤ text.length) :
    strcpy (text ++ [nul]) (2 ^ 32 - 1) 0 = none := by
  rw [strcpy, cString_text_drop hnul (Nat.zero_le _), if_neg]
  rintro ⟨-, -, hapart⟩
  rw [List.drop_zero] at hapart
  omega

/-- A turn leaves such a text as it was, or strcpy has no result. -/
theorem turn_long (hnul : nul ∉ text) (hi : i < 2 ^ 32) (hlong : 2 ^ 32 ≤ text.length) {after : FixPath}
    (h : (onText text i).turn = some after) : after = onText text i := by
  obtain ⟨c, -, h⟩ := Option.bind_eq_some_iff.mp h
  split_ifs at h
  · obtain ⟨last, -, h⟩ := Option.bind_eq_some_iff.mp h
    split_ifs at h
    · obtain ⟨ptr, hcopy, -⟩ := Option.bind_eq_some_iff.mp h
      have hnone : strcpy (text ++ [nul]) ((i + 2 ^ 32 - 1) % 2 ^ 32) i = none := by
        cases i with
        | zero => exact strcpy_around hnul hlong
        | succ i =>
          rw [before_index (Nat.lt_of_succ_lt hi)]
          exact strcpy_back hnul (Nat.lt_of_lt_of_le hi hlong)
      exact absurd (hnone.symm.trans hcopy) (by simp)
    · exact (Option.some.inj h).symm
  · exact (Option.some.inj h).symm

theorem turn_apart {a b : Char} (h : NotBothSlashes a b) (hi : front.length < 2 ^ 32) :
    (onText (front ++ a :: b :: rest) (front.length + 1)).turn =
      some (onText (front ++ a :: b :: rest) (front.length + 1)) := by
  have hb : (onText (front ++ a :: b :: rest) (front.length + 1)).ptr[front.length + 1]? = some b := by
    simp [onText]
  have ha : (onText (front ++ a :: b :: rest) (front.length + 1)).ptr[front.length]? = some a := by
    simp [onText]
  have hi' : (onText (front ++ a :: b :: rest) (front.length + 1)).i = front.length + 1 := rfl
  rw [turn, hi', before_index hi, hb, ha]
  by_cases hslash : b = '/'
  · have hne : a ≠ '/' := fun he => h ⟨he, hslash⟩
    rw [Option.bind_some, if_pos hslash, Option.bind_some, if_neg hne]
  · rw [Option.bind_some, if_neg hslash]

theorem turn_slashes (hnul : nul ∉ front ++ '/' :: '/' :: rest) (hi : front.length < 2 ^ 32) :
    (onText (front ++ '/' :: '/' :: rest) (front.length + 1)).turn = none := by
  have hb : (onText (front ++ '/' :: '/' :: rest) (front.length + 1)).ptr[front.length + 1]? =
      some '/' := by
    simp [onText]
  have ha : (onText (front ++ '/' :: '/' :: rest) (front.length + 1)).ptr[front.length]? = some '/' := by
    simp [onText]
  have hi' : (onText (front ++ '/' :: '/' :: rest) (front.length + 1)).i = front.length + 1 := rfl
  have hcopy : strcpy (onText (front ++ '/' :: '/' :: rest) (front.length + 1)).ptr front.length
      (front.length + 1) = none := strcpy_back hnul (by simp)
  rw [turn, hi', before_index hi, hb, ha, Option.bind_some, if_pos rfl, Option.bind_some, if_pos rfl,
    removeSlash, hi', before_index hi, hcopy]
  rfl

theorem loop_end (fuel : Nat) : loop (fuel + 1) (onText text text.length) = some (text ++ [nul]) :=
  if_pos rfl

theorem loop_turn {fuel : Nat} (hi : i ≠ text.length)
    (hturn : (onText text i).turn = some (onText text i)) :
    loop (fuel + 1) (onText text i) = loop fuel (onText text ((i + 1) % 2 ^ 32)) := by
  have hne : (onText text i).i ≠ (onText text i).n := hi
  rw [loop, if_neg hne, hturn, Option.bind_some]
  rfl

theorem loop_none {fuel : Nat} (hi : i ≠ text.length) (hturn : (onText text i).turn = none) :
    loop fuel (onText text i) = none := by
  cases fuel with
  | zero => rfl
  | succ fuel =>
    have hne : (onText text i).i ≠ (onText text i).n := hi
    rw [loop, if_neg hne, hturn]
    rfl

/-- From every character on, a text without two slashes in a row is passed over. -/
theorem loop_apart (front : List Char) (prev : Char) (rest : List Char)
    (h : (prev :: rest).IsChain NotBothSlashes) (hlen : (front ++ prev :: rest).length < 2 ^ 32) :
    ∃ fuel, loop fuel (onText (front ++ prev :: rest) (front.length + 1)) =
      some (front ++ prev :: rest ++ [nul]) := by
  induction rest generalizing front prev with
  | nil =>
    have hend : front.length + 1 = (front ++ [prev]).length := by simp
    exact ⟨1, hend ▸ loop_end 0⟩
  | cons c rest ih =>
    obtain ⟨hapart, htail⟩ := List.isChain_cons_cons.mp h
    have hfront : front ++ prev :: c :: rest = (front ++ [prev]) ++ c :: rest := by simp
    obtain ⟨fuel, hloop⟩ := ih (front ++ [prev]) c htail (hfront ▸ hlen)
    simp only [List.length_append, List.length_cons] at hlen
    have hindex : (front.length + 1 + 1) % 2 ^ 32 = (front ++ [prev]).length + 1 := by
      rw [List.length_append, List.length_singleton]
      omega
    refine ⟨fuel + 1, ?_⟩
    rw [loop_turn (by simp) (turn_apart hapart (by omega)), hindex, hfront]
    exact hloop

/-- The loop comes to the first two slashes in a row, and to no result. -/
theorem loop_slashes (front : List Char) (prev : Char) (rest : List Char)
    (h : ['/', '/'] <:+: prev :: rest) (hnul : nul ∉ front ++ prev :: rest)
    (hlen : (front ++ prev :: rest).length < 2 ^ 32) (fuel : Nat) :
    loop fuel (onText (front ++ prev :: rest) (front.length + 1)) = none := by
  induction rest generalizing front prev fuel with
  | nil => exact absurd h.length_le (by simp)
  | cons c rest ih =>
    have hlen' := hlen
    simp only [List.length_append, List.length_cons] at hlen'
    by_cases hapart : NotBothSlashes prev c
    · cases fuel with
      | zero => rfl
      | succ fuel =>
        have hrest : ['/', '/'] <:+: c :: rest := by
          refine (List.infix_cons_iff.mp h).resolve_left fun hhead => hapart ?_
          simp only [List.cons_prefix_cons] at hhead
          exact ⟨hhead.1.symm, hhead.2.1.symm⟩
        have hfront : front ++ prev :: c :: rest = (front ++ [prev]) ++ c :: rest := by simp
        have hindex : (front.length + 1 + 1) % 2 ^ 32 = (front ++ [prev]).length + 1 := by
          rw [List.length_append, List.length_singleton]
          omega
        rw [loop_turn (by simp) (turn_apart hapart (by omega)), hindex, hfront]
        exact ih (front ++ [prev]) c hrest (hfront ▸ hnul) (hfront ▸ hlen) fuel
    · obtain ⟨rfl, rfl⟩ := not_not.mp hapart
      exact loop_none (by simp) (turn_slashes hnul (by omega))

/-- The index never comes to the end of a text that it cannot count. -/
theorem loop_long (hnul : nul ∉ text) (hi : i < 2 ^ 32) (hlong : 2 ^ 32 ≤ text.length) (fuel : Nat) :
    loop fuel (onText text i) = none := by
  induction fuel generalizing i with
  | zero => rfl
  | succ fuel ih =>
    have hlt : i < text.length := Nat.lt_of_lt_of_le hi hlong
    cases hturn : (onText text i).turn with
    | none => exact loop_none (Nat.ne_of_lt hlt) hturn
    | some after =>
      obtain rfl := turn_long hnul hi hlong hturn
      rw [loop_turn (Nat.ne_of_lt hlt) hturn]
      exact ih (Nat.mod_lt _ (by omega))

end FixPath

theorem fixPath_eq {s : List Char} (hs : nul ∉ s) (fuel : Nat) :
    fixPath fuel (s ++ [nul]) = FixPath.loop fuel (FixPath.onText s 1) := by
  have htext : cString (s ++ [nul]) = s := cString_text hs []
  rw [fixPath, htext]
  rfl

theorem fixPath_nil (fuel : Nat) : fixPath fuel ([] ++ [nul]) = none := by
  have hread : (FixPath.onText [] 1).turn = none := rfl
  rw [fixPath_eq List.not_mem_nil]
  exact FixPath.loop_none (by decide) hread

/-- The loop has a result on a path that is in order, and on no other. -/
theorem PathOk.of_fixPath {s ptr : List Char} {fuel : Nat} (hs : nul ∉ s)
    (h : fixPath fuel (s ++ [nul]) = some ptr) : PathOk s := by
  have hlength : s.length < 2 ^ 32 := by
    by_contra hlong
    rw [fixPath_eq hs, FixPath.loop_long hs (by decide) (Nat.le_of_not_lt hlong)] at h
    exact absurd h (by simp)
  cases s with
  | nil => exact absurd ((fixPath_nil fuel).symm.trans h) (by simp)
  | cons c rest =>
    refine ⟨List.cons_ne_nil c rest, fun hslashes => ?_, hlength⟩
    have hnone := FixPath.loop_slashes [] c rest hslashes hs hlength fuel
    rw [fixPath_eq hs] at h
    exact absurd (hnone.symm.trans h) (by simp)

theorem PathOk.collapses {s : List Char} (hs : nul ∉ s) (h : PathOk s) : Collapses s := by
  cases s with
  | nil => exact absurd rfl h.nonempty
  | cons c rest =>
    obtain ⟨fuel, hloop⟩ := FixPath.loop_apart [] c rest (isChain_of_apart h.apart) h.length
    refine ⟨fuel, _, (fixPath_eq hs fuel).trans hloop, ?_⟩
    rw [collapse_apart h.apart]
    exact cString_text hs []

/-- Two slashes in a row are what the loop is there for, and what it has no result on. -/
theorem fixPath_collapses_iff {s : List Char} (hs : nul ∉ s) : Collapses s ↔ PathOk s := by
  constructor
  · rintro ⟨fuel, ptr, hrun, -⟩
    exact PathOk.of_fixPath hs hrun
  · exact PathOk.collapses hs

theorem fixPath_collapses_library : Collapses "/usr/lib".toList :=
  (fixPath_collapses_iff (s := "/usr/lib".toList) (by decide)).2 ⟨by decide, by decide, by decide⟩

theorem two_slashes_undefined : ¬ ∀ s : List Char, nul ∉ s → Collapses s := by
  intro hall
  obtain ⟨fuel, ptr, hrun, -⟩ := hall "/usr//lib".toList (by decide)
  exact (PathOk.of_fixPath (by decide) hrun).apart (by decide)

end AutoGentoo
