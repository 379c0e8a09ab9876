import AutoGentoo.AtomNames
import AutoGentoo.Regenerate

/-! The texts of the token ATOM_FLAGS, the chain its action builds, and what Python sees
of the chain. -/

namespace AutoGentoo

/-- The tokens `strtok` finds one after the other. -/
def strtok (s : List Char) (delim : Char → Bool) : List (List Char) := (s.splitOnP delim).filter (· ≠ [])

/-- `" ,]"` -/
def isFlagDelim (c : Char) : Bool := c == ' ' || c == ',' || c == ']'

/-- `atomflag_init` on a new object. -/
def atomflagBuild (name : List Char) : AtomFlag :=
  if name.head? = some '-' then { name := name.drop 1, option := .disable, dflt := .none }
  else { name := name, option := .enable, dflt := .none }

/-- What a turn of the loop makes of a token that is not empty. -/
def tokenFlag (tok : List Char) : AtomFlag :=
  let cut : List Char × AtomUse :=
    if tok.head? = some '!' ∧ tok.getLast? = some '?' then (tok.dropLast.drop 1, .disableIfOff)
    else if tok.head? = some '!' ∧ tok.getLast? = some '=' then (tok.dropLast.drop 1, .opposite)
    else if tok.getLast? = some '?' then (tok.dropLast, .enableIfOn)
    else if tok.getLast? = some '=' then (tok.dropLast, .equal)
    else if tok.head? = some '-' then (tok.drop 1, .disable)
    else (tok, .enable)
  { atomflagBuild cut.1 with option := cut.2 }

/-- The action of `atomflags`, whose scan begins behind the bracket. -/
def atomFlagsAction (yytext : List Char) : List AtomFlag :=
  (strtok (yytext.drop 1) isFlagDelim).map tokenFlag

/-- The members `name`, `option` and `default`. -/
def AtomFlag.members (self : AtomFlag) : List Char × AtomUse × Option AtomUseDefault :=
  (self.name, self.option, self.defaultMember)

def AtomUse.before : AtomUse → List Char
  | disable => ['-'] | disableIfOff | opposite => ['!'] | enable | enableIfOn | equal => []

def AtomUse.behind : AtomUse → List Char
  | enableIfOn | disableIfOff => ['?'] | equal | opposite => ['='] | enable | disable => []

def AtomUseDefault.text : AtomUseDefault → List Char
  | none => [] | on => "(+)".toList | off => "(-)".toList

/-- An entry of one of the forms `f`, `-f`, `f?`, `!f?`, `f=`, `!f=`. -/
structure FlagEntry where
  mode : AtomUse
  name : Identifier
  dflt : AtomUseDefault

namespace FlagEntry

def bare (self : FlagEntry) : List Char := self.name.text ++ self.dflt.text

def text (self : FlagEntry) : List Char := self.mode.before ++ (self.bare ++ self.mode.behind)

/-- What the entry says. -/
def value (self : FlagEntry) : List Char × AtomUse × Option AtomUseDefault :=
  (self.name.text, self.mode, some self.dflt)

end FlagEntry

/-- The entries with the numbers of spaces before and behind each comma, behind the opening
and before the closing bracket. -/
structure FlagList where
  lead : Nat
  first : FlagEntry
  more : List (Nat × Nat × FlagEntry)
  trail : Nat

namespace FlagList

def spaces (n : Nat) : List Char := List.replicate n ' '

def restText : List (Nat × Nat × FlagEntry) → Nat → List Char
  | [], trail => spaces trail ++ [']']
  | (before, behind, e) :: more, trail =>
    spaces before ++ ',' :: (spaces behind ++ (e.text ++ restText more trail))

def text (l : FlagList) : List Char :=
  '[' :: (spaces l.lead ++ (l.first.text ++ restText l.more l.trail))

def entries (l : FlagList) : List FlagEntry := l.first :: l.more.map fun m => m.2.2

end FlagList

theorem strtok_delim {delim : Char → Bool} {d : Char} (hd : delim d = true) (s : List Char) :
    strtok (d :: s) delim = strtok s delim := by
  rw [strtok, List.splitOnP_cons_eq_if_modifyHead, if_pos hd, List.filter_cons_of_neg (by simp)]
  rfl

theorem strtok_token {delim : Char → Bool} {t : List Char} (ht : ∀ c ∈ t, delim c = false) (hne : t ≠ [])
    {d : Char} (hd : delim d = true) (s : List Char) :
    strtok (t ++ d :: s) delim = t :: strtok (d :: s) delim := by
  rw [strtok_delim hd, strtok, List.splitOnP_append_cons_of_forall_mem ht d hd s,
    List.filter_cons_of_pos (by simpa using hne)]
  rfl

namespace FlagEntry

theorem bare_notMem (self : FlagEntry) {c : Char} (hdash : c ≠ '-')
    (hc : (c.isAlphanum || c == '+' || c == '_') = false) (hdflt : c ≠ '(' ∧ c ≠ ')') :
    c ∉ self.bare := by
  have hplus : c ≠ '+' := by
    rintro rfl
    exact absurd hc (by decide)
  intro h
  rcases List.mem_append.mp h with h | h
  · exact self.name.notMem_text hdash hc h
  · cases hd : self.dflt <;> simp [hd, AtomUseDefault.text, hdash, hdflt, hplus] at h

theorem bare_head (self : FlagEntry) : ∃ c rest, self.bare = c :: rest ∧ c ≠ '!' ∧ c ≠ '-' := by
  rcases hfirst : self.name.first with ⟨w, hw⟩
  cases w with
  | nil => exact absurd hw (by simp [identWord])
  | cons c s =>
    simp only [identWord, Bool.and_eq_true] at hw
    refine ⟨c, s ++ self.name.more.flatMap (fun x => '-' :: x.1) ++ self.dflt.text, ?_, ?_, ?_⟩
    · simp [bare, Identifier.text, dashed, hfirst]
    · rintro rfl
      exact absurd hw.1 (by decide)
    · rintro rfl
      exact absurd hw.1 (by decide)

theorem bare_last (self : FlagEntry) : self.bare.getLast? ≠ some '?' ∧ self.bare.getLast? ≠ some '=' :=
  ⟨fun h => self.bare_notMem (by decide) (by decide) (by decide) (List.mem_of_getLast? h),
    fun h => self.bare_notMem (by decide) (by decide) (by decide) (List.mem_of_getLast? h)⟩

/-- A default in brackets stays part of the name. -/
theorem tokenFlag_text (self : FlagEntry) :
    tokenFlag self.text = { name := self.bare, option := self.mode, dflt := .none } := by
  obtain ⟨c, rest, hbare, hbang, hdash⟩ := self.bare_head
  obtain ⟨hquestion, hequal⟩ := self.bare_last
  have hbuild : atomflagBuild self.bare = { name := self.bare, option := .enable, dflt := .none } := by
    simp [atomflagBuild, hbare, hdash]
  have hlast : ∀ x, (c :: (rest ++ [x])).getLast? = some x := by simp [List.getLast?_cons]
  have hcut : ∀ x, (c :: (rest ++ [x])).dropLast = c :: rest := by
    intro x
    rw [← List.cons_append, List.dropLast_concat]
  rw [hbare] at hbuild hquestion hequal
  rw [tokenFlag, text, hbare]
  cases self.mode <;>
    simp [AtomUse.before, AtomUse.behind, hbang, hdash, hquestion, hequal, hbuild, hlast, hcut,
      List.getLast?_cons_cons]

theorem text_not_delim (self : FlagEntry) : ∀ c ∈ self.text, isFlagDelim c = false := by
  intro c hc
  by_contra hdelim
  have hcases : c = ' ' ∨ c = ',' ∨ c = ']' := by
    simp only [isFlagDelim, Bool.not_eq_false, Bool.or_eq_true, beq_iff_eq, or_assoc] at hdelim
    exact hdelim
  have hbare : c ∉ self.bare := by
    rcases hcases with rfl | rfl | rfl <;> exact self.bare_notMem (by decide) (by decide) (by decide)
  rcases List.mem_append.mp hc with h | h
  · cases hm : self.mode <;> rcases hcases with rfl | rfl | rfl <;> simp [hm, AtomUse.before] at h
  · rcases List.mem_append.mp h with h | h
    · exact hbare h
    · cases hm : self.mode <;> rcases hcases with rfl | rfl | rfl <;> simp [hm, AtomUse.behind] at h

theorem text_ne_nil (self : FlagEntry) : self.text ≠ [] := by
  obtain ⟨c, rest, hbare, -⟩ := self.bare_head
  simp [text, hbare]

/-- The member `default` is a second reading of `option`. -/
theorem members_eq_value_iff (self : FlagEntry) :
    (tokenFlag self.text).members = self.value ↔ self.mode = .disable ∧ self.dflt = .none := by
  rw [tokenFlag_text, AtomFlag.members, value, Prod.mk.injEq, Prod.mk.injEq]
  have hname : self.bare = self.name.text ↔ self.dflt = .none := by
    rw [bare, List.append_right_eq_self]
    cases self.dflt <;> simp [AtomUseDefault.text]
  rw [hname]
  cases hm : self.mode <;> cases hd : self.dflt <;> simp [AtomFlag.defaultMember]

end FlagEntry

namespace FlagList

theorem strtok_spaces (n : Nat) (s : List Char) : strtok (spaces n ++ s) isFlagDelim = strtok s isFlagDelim := by
  induction n with
  | zero => rfl
  | succ n ih =>
    rw [spaces, List.replicate_succ, List.cons_append, strtok_delim (by decide)]
    exact ih

theorem strtok_entry (e : FlagEntry) {rest : List Char} (h : ∃ d s, rest = d :: s ∧ isFlagDelim d = true) :
    strtok (e.text ++ rest) isFlagDelim = e.text :: strtok rest isFlagDelim := by
  obtain ⟨d, s, rfl, hd⟩ := h
  exact strtok_token e.text_not_delim e.text_ne_nil hd s

theorem restText_head (more : List (Nat × Nat × FlagEntry)) (trail : Nat) :
    ∃ d s, restText more trail = d :: s ∧ isFlagDelim d = true := by
  have hspaces : ∀ n d s, isFlagDelim d = true → ∃ d' s', spaces n ++ d :: s = d' :: s' ∧ isFlagDelim d' = true := by
    intro n d s hd
    cases n with
    | zero => exact ⟨d, s, rfl, hd⟩
    | succ n => exact ⟨' ', spaces n ++ d :: s, rfl, rfl⟩
  cases more with
  | nil => exact hspaces trail ']' [] (by decide)
  | cons m more => exact hspaces m.1 ',' _ (by decide)

theorem strtok_rest (more : List (Nat × Nat × FlagEntry)) (trail : Nat) :
    strtok (restText more trail) isFlagDelim = more.map fun m => m.2.2.text := by
  induction more with
  | nil =>
    rw [restText, strtok_spaces, strtok_delim (by decide)]
    rfl
  | cons m more ih =>
    obtain ⟨before, behind, e⟩ := m
    rw [restText, strtok_spaces, strtok_delim (by decide), strtok_spaces,
      strtok_entry e (restText_head more trail), ih]
    rfl

theorem action_text (l : FlagList) : atomFlagsAction l.text = l.entries.map fun e => tokenFlag e.text := by
  have htokens : strtok (l.text.drop 1) isFlagDelim = l.entries.map FlagEntry.text := by
    show strtok (spaces l.lead ++ (l.first.text ++ restText l.more l.trail)) isFlagDelim = _
    rw [strtok_spaces, strtok_entry l.first (restText_head l.more l.trail), strtok_rest, entries]
    simp
  rw [atomFlagsAction, htokens, List.map_map]
  rfl

theorem members_iff (l : FlagList) : (atomFlagsAction l.text).map AtomFlag.members =
    l.entries.map FlagEntry.value ↔ ∀ e ∈ l.entries, e.mode = .disable ∧ e.dflt = .none := by
  rw [action_text, List.map_map, List.map_inj_left]
  exact forall₂_congr fun e _ => e.members_eq_value_iff

/-- `[f]` -/
def enabledFlag : FlagList where
  lead := 0
  first :=
    { mode := .enable
      name := { first := ⟨['f'], by decide⟩, more := [] }
      dflt := .none }
  more := []
  trail := 0

theorem enabledFlag_default : ¬ ∀ l : FlagList,
    (atomFlagsAction l.text).map AtomFlag.members = l.entries.map FlagEntry.value := by
  intro h
  exact absurd (h enabledFlag) (by decide)

end FlagList

end AutoGentoo
