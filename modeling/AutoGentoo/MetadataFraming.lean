import AutoGentoo.MetadataFile
import Mathlib.Data.List.TakeWhile

/-! Which pairs the read loop of `ebuild_metadata_init` takes from a file of lines
KEY=value. -/

namespace AutoGentoo

/-- A key has no `=`, and the line ends at the first newline. -/
structure MetadataLine where
  key : List Char
  value : List Char
  keyOk : '=' ∉ key
  valueOk : newline ∉ value

/-- The text of the lines, with or without a newline behind the last one. -/
def fileText (final : Bool) : List MetadataLine → List Char
  | [] => []
  | line :: rest =>
    line.key ++ '=' :: (line.value ++
      if rest.isEmpty && !final then [] else newline :: fileText final rest)

/-- The keys that are looked for. -/
def Recognised (key : List Char) : Prop :=
  dependSetup key ≠ none ∨
    key ∈ ["SLOT".toList, "REQUIRED_USE".toList, "KEYWORDS".toList, "IUSE".toList]

/-- A pair as the loop has taken it has the key of the line, and its value if the key
is looked for. -/
def Takes (pair : List Char × List Char) (line : MetadataLine) : Prop :=
  pair.1 = line.key ∧ (Recognised line.key → pair.2 = line.value)

/-- No zero cuts the line short, and a value of SLOT has more than slashes. -/
structure LineOk (line : MetadataLine) : Prop where
  key : nul ∉ line.key
  value : Recognised line.key → nul ∉ line.value
  slot : line.key = "SLOT".toList → ∃ c ∈ line.value, c ≠ '/'

/-- Besides, no value of REQUIRED_USE is refused before the last line, and that line
ends with a newline or has a value for a key that is not looked for. -/
structure FileOk (p : MetadataParsers) (final : Bool) (lines : List MetadataLine) : Prop where
  each : ∀ line ∈ lines, LineOk line
  required : ∀ line ∈ lines.dropLast, line.key = "REQUIRED_USE".toList →
    p.requiredUseParse line.value ≠ .null
  last : final = false → ∀ line ∈ lines.getLast?, line.value ≠ [] ∧ ¬ Recognised line.key

namespace Stream

theorem getdelim_delim {delim : Char} {front : List Char} (h : delim ∉ front) (back : List Char)
    (eof : Bool) : getdelim { rest := front ++ delim :: back, eof := eof } delim =
      (some (front ++ [delim]), { rest := back, eof := eof }) := by
  have hne : ∀ c ∈ front, decide (c ≠ delim) = true := by
    intro c hc
    exact decide_eq_true fun he => h (he ▸ hc)
  have hdrop : (front ++ delim :: back).dropWhile (fun c => decide (c ≠ delim)) = delim :: back := by
    rw [List.dropWhile_append_of_pos hne]
    simp
  have htake : (front ++ delim :: back).takeWhile (fun c => decide (c ≠ delim)) = front := by
    rw [List.takeWhile_append_of_pos hne]
    simp
  simp only [getdelim, hdrop, htake]

theorem getdelim_end {delim : Char} {front : List Char} (h : delim ∉ front) (eof : Bool) :
    getdelim { rest := front, eof := eof } delim =
      (if front = [] then none else some front, { rest := [], eof := true }) := by
  have hdrop : front.dropWhile (fun c => decide (c ≠ delim)) = [] := by
    rw [List.dropWhile_eq_nil_iff]
    intro c hc
    exact decide_eq_true fun he => h (he ▸ hc)
  simp only [getdelim, hdrop]

theorem getdelim_length {self : Stream} {delim : Char} {buffer : List Char}
    (h : (self.getdelim delim).1 = some buffer) :
    (self.getdelim delim).2.rest.length < self.rest.length := by
  rw [getdelim] at h ⊢
  cases hd : self.rest.dropWhile (fun c => decide (c ≠ delim)) with
  | nil =>
    rw [hd] at h
    by_cases hr : self.rest = []
    · simp [hr] at h
    · exact List.length_pos_iff.mpr hr
  | cons c rest =>
    have hlen := (List.dropWhile_suffix (l := self.rest) fun c => decide (c ≠ delim)).length_le
    rw [hd, List.length_cons] at hlen
    exact hlen

theorem getdelim_length_le (self : Stream) (delim : Char) :
    (self.getdelim delim).2.rest.length ≤ self.rest.length := by
  rw [getdelim]
  cases hd : self.rest.dropWhile (fun c => decide (c ≠ delim)) with
  | nil => exact Nat.zero_le _
  | cons c rest =>
    have hlen := (List.dropWhile_suffix (l := self.rest) fun c => decide (c ≠ delim)).length_le
    rw [hd, List.length_cons] at hlen
    show rest.length ≤ _
    omega

theorem readPair_length {self : Stream} {pair : List Char × List Char}
    (h : self.readPair.1 = some pair) : self.readPair.2.rest.length < self.rest.length := by
  rw [readPair] at h ⊢
  cases hn : (self.getdelim '=').1 with
  | none => simp [hn] at h
  | some n =>
    have hname := getdelim_length hn
    have hvalue := getdelim_length_le (self.getdelim '=').2 newline
    cases ((self.getdelim '=').2.getdelim newline).1 <;> exact Nat.lt_of_le_of_lt hvalue hname

theorem readPair_line (line : MetadataLine) (rest : List Char) :
    readPair { rest := line.key ++ '=' :: (line.value ++ newline :: rest), eof := false } =
      (some (cString line.key, cString line.value), { rest := rest, eof := false }) := by
  simp only [readPair, getdelim_delim line.keyOk, getdelim_delim line.valueOk, List.dropLast_concat]

theorem readPair_last (line : MetadataLine) :
    readPair { rest := line.key ++ '=' :: line.value, eof := false } =
      (if line.value = [] then none else some (cString line.key, cString line.value.dropLast),
        { rest := [], eof := true }) := by
  simp only [readPair, getdelim_delim line.keyOk, getdelim_end line.valueOk]
  by_cases hv : line.value = []
  · simp only [hv, if_true]
  · simp only [if_neg hv, List.dropLast_concat]

end Stream

/-- The loop ends after at most as many turns as the file has characters, and one more. -/
theorem metadataLoop_ends (p : MetadataParsers) (n : Nat) (fp : Stream) (self : EbuildFields)
    (error : Nat) (h : fp.rest.length < n) : ∃ r, metadataLoop p n fp self error = some r ∧
      ∀ m, n ≤ m → metadataLoop p m fp self error = some r := by
  induction n generalizing fp self error with
  | zero => omega
  | succ n ih =>
    have hsucc : ∀ m, n + 1 ≤ m → ∃ m', m = m' + 1 ∧ n ≤ m' := fun m hm => ⟨m - 1, by omega, by omega⟩
    by_cases heof : fp.eof = true
    · refine ⟨([], .next self error), by rw [metadataLoop, if_pos heof], fun m hm => ?_⟩
      obtain ⟨m', rfl, -⟩ := hsucc m hm
      rw [metadataLoop, if_pos heof]
    · rcases hread : fp.readPair with ⟨_ | ⟨name, value⟩, fp'⟩
      · refine ⟨([], .next self error), by rw [metadataLoop, if_neg heof, hread], fun m hm => ?_⟩
        obtain ⟨m', rfl, -⟩ := hsucc m hm
        rw [metadataLoop, if_neg heof, hread]
      · have hlen : fp'.rest.length < fp.rest.length := by
          have hshort := Stream.readPair_length (congrArg Prod.fst hread)
          rwa [hread] at hshort
        cases hturn : metadataTurn p name value self error with
        | next self' error' =>
          obtain ⟨r, hr, hmore⟩ := ih fp' self' error' (by omega)
          refine ⟨((name, value) :: r.1, r.2), ?_, fun m hm => ?_⟩
          · simp only [metadataLoop, if_neg heof, hread, hturn, hr, Option.map_some]
          · obtain ⟨m', rfl, hm'⟩ := hsucc m hm
            simp only [metadataLoop, if_neg heof, hread, hturn, hmore m' hm', Option.map_some]
        | stop self' error' =>
          refine ⟨([(name, value)], .stop self' error'), ?_, fun m hm => ?_⟩
          · simp only [metadataLoop, if_neg heof, hread, hturn]
          · obtain ⟨m', rfl, -⟩ := hsucc m hm
            simp only [metadataLoop, if_neg heof, hread, hturn]
        | crash =>
          refine ⟨([(name, value)], .crash), ?_, fun m hm => ?_⟩
          · simp only [metadataLoop, if_neg heof, hread, hturn]
          · obtain ⟨m', rfl, -⟩ := hsucc m hm
            simp only [metadataLoop, if_neg heof, hread, hturn]

theorem cString_eq_self {buffer : List Char} : cString buffer = buffer ↔ nul ∉ buffer := by
  rw [cString, List.takeWhile_eq_self_iff]
  constructor
  · intro h hmem
    exact absurd (h nul hmem) (by simp)
  · intro h c hc
    exact decide_eq_true fun he => h (he ▸ hc)

theorem takes_line (line : MetadataLine) : Takes (cString line.key, cString line.value) line ↔
    nul ∉ line.key ∧ (Recognised line.key → nul ∉ line.value) := by
  rw [Takes, cString_eq_self, cString_eq_self]

theorem takes_last {line : MetadataLine} (hv : line.value ≠ []) :
    Takes (cString line.key, cString line.value.dropLast) line ↔
      nul ∉ line.key ∧ ¬ Recognised line.key := by
  have hlen : cString line.value.dropLast ≠ line.value := by
    intro he
    have hle := (List.takeWhile_prefix (l := line.value.dropLast) fun c => decide (c ≠ nul)).length_le
    rw [← cString, he, List.length_dropLast] at hle
    have hpos := List.length_pos_iff.mpr hv
    omega
  rw [Takes, cString_eq_self]
  exact and_congr_right fun _ => ⟨fun h hr => hlen (h hr), fun h hr => absurd hr h⟩

theorem strtok_eq_nil_iff {s : List Char} {delim : Char → Bool} :
    strtok s delim = [] ↔ ∀ c ∈ s, delim c = true := by
  induction s with
  | nil => simp [strtok]
  | cons c s ih =>
    cases hc : delim c with
    | true => rw [strtok_delim hc, ih, List.forall_mem_cons, hc, eq_self_iff_true, true_and]
    | false =>
      obtain ⟨head, tail, hsplit⟩ := List.exists_cons_of_ne_nil (List.splitOnP_ne_nil delim s)
      have htoken : strtok (c :: s) delim = (c :: head) :: tail.filter (· ≠ []) := by
        rw [strtok, List.splitOnP_cons_eq_if_modifyHead, if_neg (by simp [hc]), hsplit,
          List.modifyHead_cons, List.filter_cons_of_pos (by simp)]
      rw [htoken]
      simp [hc]

section Turn

variable {p : MetadataParsers} {name value : List Char} {self : EbuildFields} {error : Nat}

theorem dependSetup_slot : dependSetup "SLOT".toList = none := by decide

theorem dependSetup_requiredUse : dependSetup "REQUIRED_USE".toList = none := by decide

/-- Only SLOT makes a turn dereference a token that is not there. -/
theorem metadataTurn_crash : metadataTurn p name value self error = .crash ↔
    name = "SLOT".toList ∧ ∀ c ∈ value, c = '/' := by
  have hnil : strtok value (· == '/') = [] ↔ ∀ c ∈ value, c = '/' := by
    rw [strtok_eq_nil_iff]
    simp only [beq_iff_eq]
  rw [← hnil, metadataTurn]
  by_cases hslot : name = "SLOT".toList
  · subst hslot
    simp only [dependSetup_slot, if_true, true_and]
    cases strtok value (· == '/') <;> simp
  · refine iff_of_false ?_ fun h => hslot h.1
    cases dependSetup name with
    | some var =>
      dsimp only
      split_ifs <;> simp
    | none =>
      dsimp only
      rw [if_neg hslot]
      split_ifs <;> simp

/-- Only a REQUIRED_USE that is refused ends the loop. -/
theorem metadataTurn_stop : (∃ self' error', metadataTurn p name value self error = .stop self' error') ↔
    name = "REQUIRED_USE".toList ∧ p.requiredUseParse value = .null := by
  rw [metadataTurn]
  by_cases hreq : name = "REQUIRED_USE".toList
  · subst hreq
    simp only [dependSetup_requiredUse, if_true, true_and]
    rw [if_neg (by decide)]
    split_ifs with hnull <;> simp [hnull]
  · refine iff_of_false ?_ fun h => hreq h.1
    cases dependSetup name with
    | some var =>
      dsimp only
      split_ifs <;> simp
    | none =>
      dsimp only
      rw [if_neg hreq]
      split_ifs
      · cases strtok value (· == '/') <;> simp
      all_goals simp

end Turn

/-- The loop takes the lines of a file one after the other, and does not crash. -/
def Taken (lines : List MetadataLine)
    (r : Option (List (List Char × List Char) × MetadataTurn)) : Prop :=
  ∃ pairs ending, r = some (pairs, ending) ∧ ending ≠ .crash ∧ List.Forall₂ Takes pairs lines

theorem fileOk_nil (p : MetadataParsers) (final : Bool) : FileOk p final [] :=
  ⟨by simp, by simp, by simp⟩

theorem fileOk_singleton {p : MetadataParsers} {final : Bool} {line : MetadataLine} :
    FileOk p final [line] ↔
      LineOk line ∧ (final = false → line.value ≠ [] ∧ ¬ Recognised line.key) := by
  constructor
  · intro h
    exact ⟨h.each line List.mem_cons_self, fun hf => h.last hf line rfl⟩
  · rintro ⟨hline, hlast⟩
    refine ⟨?_, by simp, fun hf other hother => ?_⟩
    · intro other hother
      rw [List.mem_singleton.mp hother]
      exact hline
    · obtain rfl : line = other := Option.some.inj hother
      exact hlast hf

theorem fileOk_cons {p : MetadataParsers} {final : Bool} {line next : MetadataLine}
    {rest : List MetadataLine} : FileOk p final (line :: next :: rest) ↔
      LineOk line ∧ (line.key = "REQUIRED_USE".toList → p.requiredUseParse line.value ≠ .null) ∧
        FileOk p final (next :: rest) := by
  constructor
  · intro h
    refine ⟨h.each line List.mem_cons_self, h.required line List.mem_cons_self, ?_, ?_, h.last⟩
    · exact fun other hother => h.each other (List.mem_cons_of_mem _ hother)
    · exact fun other hother => h.required other (List.mem_cons_of_mem _ hother)
  · rintro ⟨hline, hreq, hrest⟩
    refine ⟨?_, ?_, hrest.last⟩
    · exact List.forall_mem_cons.mpr ⟨hline, hrest.each⟩
    · exact List.forall_mem_cons.mpr ⟨hreq, hrest.required⟩

section Loop

variable {p : MetadataParsers} {n : Nat}

theorem metadataLoop_empty (self : EbuildFields) (error : Nat) :
    metadataLoop p (n + 1) { rest := [], eof := false } self error = some ([], .next self error) := rfl

theorem taken_turn {fp fp' : Stream} (heof : fp.eof = false) {pair : List Char × List Char}
    (hread : fp.readPair = (some pair, fp')) (self : EbuildFields) (error : Nat) (line : MetadataLine)
    (rest : List MetadataLine) :
    Taken (line :: rest) (metadataLoop p (n + 1) fp self error) ↔ Takes pair line ∧
      ((rest = [] ∧ ∃ self' error', metadataTurn p pair.1 pair.2 self error = .stop self' error') ∨
      ∃ self' error', metadataTurn p pair.1 pair.2 self error = .next self' error' ∧
        Taken rest (metadataLoop p n fp' self' error')) := by
  obtain ⟨name, value⟩ := pair
  simp only [metadataLoop, heof, Bool.false_eq_true, if_false, hread]
  cases hturn : metadataTurn p name value self error with
  | next self' error' =>
    constructor
    · rintro ⟨pairs, ending, hr, hne, htakes⟩
      obtain ⟨⟨pairs', ending'⟩, hloop, he⟩ := Option.map_eq_some_iff.mp hr
      obtain ⟨rfl, rfl⟩ := Prod.mk.inj he
      obtain ⟨hline, hrest⟩ := List.forall₂_cons.mp htakes
      exact ⟨hline, .inr ⟨self', error', rfl, pairs', ending', hloop, hne, hrest⟩⟩
    · rintro ⟨hline, ⟨-, _, _, he⟩ | ⟨_, _, he, pairs', ending', hloop, hne, hrest⟩⟩
      · exact absurd he (by simp)
      · obtain ⟨rfl, rfl⟩ := MetadataTurn.next.inj he
        exact ⟨_, ending', by simp only [hloop, Option.map_some], hne, List.forall₂_cons.mpr ⟨hline, hrest⟩⟩
  | stop self' error' =>
    constructor
    · rintro ⟨pairs, ending, hr, -, htakes⟩
      obtain ⟨rfl, rfl⟩ := Prod.mk.inj (Option.some.inj hr)
      obtain ⟨hline, hrest⟩ := List.forall₂_cons.mp htakes
      exact ⟨hline, .inl ⟨List.forall₂_nil_left_iff.mp hrest, self', error', rfl⟩⟩
    · rintro ⟨hline, ⟨rfl, -⟩ | ⟨_, _, he, -⟩⟩
      · exact ⟨_, _, rfl, by simp, List.forall₂_cons.mpr ⟨hline, .nil⟩⟩
      · exact absurd he (by simp)
  | crash =>
    constructor
    · rintro ⟨pairs, ending, hr, hne, -⟩
      exact absurd (Prod.mk.inj (Option.some.inj hr)).2.symm hne
    · rintro ⟨-, ⟨-, _, _, he⟩ | ⟨_, _, he, -⟩⟩
      · exact absurd he (by simp)
      · exact absurd he (by simp)

/-- Taken as it is, a line is all right unless it makes the turn crash. -/
theorem lineOk_iff {line : MetadataLine} {pair : List Char × List Char} (h : Takes pair line)
    (hnul : nul ∉ line.key ∧ (Recognised line.key → nul ∉ line.value)) (self : EbuildFields)
    (error : Nat) : LineOk line ↔ metadataTurn p pair.1 pair.2 self error ≠ .crash := by
  have hslot : line.key = "SLOT".toList → pair.2 = line.value := fun hkey => h.2 (.inr (by simp [hkey]))
  rw [Ne, metadataTurn_crash, h.1]
  constructor
  · rintro hline ⟨hkey, hall⟩
    obtain ⟨c, hc, hne⟩ := hline.slot hkey
    rw [hslot hkey] at hall
    exact hne (hall c hc)
  · intro hcrash
    refine ⟨hnul.1, hnul.2, fun hkey => ?_⟩
    by_contra hnone
    refine hcrash ⟨hkey, fun c hc => ?_⟩
    rw [hslot hkey] at hc
    by_contra hne
    exact hnone ⟨c, hc, hne⟩

theorem not_stop_iff {line : MetadataLine} {pair : List Char × List Char} (h : Takes pair line)
    (self : EbuildFields) (error : Nat) :
    (¬ ∃ self' error', metadataTurn p pair.1 pair.2 self error = .stop self' error') ↔
      (line.key = "REQUIRED_USE".toList → p.requiredUseParse line.value ≠ .null) := by
  have hreq : line.key = "REQUIRED_USE".toList → pair.2 = line.value :=
    fun hkey => h.2 (.inr (by simp [hkey]))
  rw [metadataTurn_stop, h.1, not_and]
  refine forall_congr' fun hkey => ?_
  rw [hreq hkey]

theorem not_next {turn : MetadataTurn} (hcrash : turn ≠ .crash)
    (hstop : ¬ ∃ self error, turn = .stop self error) : ∃ self error, turn = .next self error := by
  cases turn with
  | next self error => exact ⟨self, error, rfl⟩
  | stop self error => exact absurd ⟨self, error, rfl⟩ hstop
  | crash => exact absurd rfl hcrash

theorem taken_singleton {fp fp' : Stream} (heof : fp.eof = false) {pair : List Char × List Char}
    (hread : fp.readPair = (some pair, fp')) {line : MetadataLine} (self : EbuildFields) (error : Nat)
    (hend : ∀ self error, metadataLoop p n fp' self error = some ([], .next self error)) :
    Taken [line] (metadataLoop p (n + 1) fp self error) ↔
      Takes pair line ∧ metadataTurn p pair.1 pair.2 self error ≠ .crash := by
  rw [taken_turn heof hread]
  refine and_congr_right fun _ => ⟨?_, fun hcrash => ?_⟩
  · rintro (⟨-, _, _, he⟩ | ⟨_, _, he, -⟩)
    · simp [he]
    · simp [he]
  · by_cases hstop : ∃ self' error', metadataTurn p pair.1 pair.2 self error = .stop self' error'
    · exact .inl ⟨rfl, hstop⟩
    · obtain ⟨self', error', hnext⟩ := not_next hcrash hstop
      exact .inr ⟨self', error', hnext, [], _, hend self' error', by simp, .nil⟩

theorem taken_iff (final : Bool) (lines : List MetadataLine) (self : EbuildFields) (error : Nat)
    (hn : (fileText final lines).length < n) :
    Taken lines (metadataLoop p n { rest := fileText final lines, eof := false } self error) ↔
      FileOk p final lines := by
  induction lines generalizing n self error with
  | nil =>
    obtain ⟨m, rfl⟩ : ∃ m, n = m + 1 := ⟨n - 1, by omega⟩
    exact iff_of_true ⟨[], _, metadataLoop_empty self error, by simp, .nil⟩ (fileOk_nil p final)
  | cons line rest ih =>
    obtain ⟨m, rfl⟩ : ∃ m, n = m + 1 := ⟨n - 1, by omega⟩
    cases rest with
    | nil =>
      rw [fileOk_singleton]
      cases final with
      | true =>
        have htext : fileText true [line] = line.key ++ '=' :: (line.value ++ newline :: []) := rfl
        rw [htext] at hn ⊢
        obtain ⟨k, rfl⟩ : ∃ k, m = k + 1 := ⟨m - 1, by simp at hn; omega⟩
        rw [taken_singleton rfl (Stream.readPair_line line []) self error fun _ _ => rfl]
        constructor
        · rintro ⟨htakes, hcrash⟩
          exact ⟨(lineOk_iff htakes ((takes_line line).mp htakes) self error).mpr hcrash, by simp⟩
        · rintro ⟨hline, -⟩
          have htakes := (takes_line line).mpr ⟨hline.key, hline.value⟩
          exact ⟨htakes, (lineOk_iff htakes ⟨hline.key, hline.value⟩ self error).mp hline⟩
      | false =>
        have htext : fileText false [line] = line.key ++ '=' :: line.value := by simp [fileText]
        have hread := Stream.readPair_last line
        rw [htext] at hn ⊢
        by_cases hv : line.value = []
        · rw [if_pos hv] at hread
          refine iff_of_false ?_ fun h => (h.2 rfl).1 hv
          rintro ⟨pairs, ending, hr, -, htakes⟩
          simp only [metadataLoop, Bool.false_eq_true, if_false, hread] at hr
          obtain ⟨rfl, -⟩ := Prod.mk.inj (Option.some.inj hr)
          exact absurd htakes (by simp)
        · rw [if_neg hv] at hread
          obtain ⟨k, rfl⟩ : ∃ k, m = k + 1 := ⟨m - 1, by simp at hn; omega⟩
          rw [taken_singleton rfl hread self error fun _ _ => rfl]
          constructor
          · rintro ⟨htakes, hcrash⟩
            obtain ⟨hkey, hrec⟩ := (takes_last hv).mp htakes
            have hnul : Recognised line.key → nul ∉ line.value := fun h => absurd h hrec
            exact ⟨(lineOk_iff htakes ⟨hkey, hnul⟩ self error).mpr hcrash, fun _ => ⟨hv, hrec⟩⟩
          · rintro ⟨hline, hlast⟩
            have htakes := (takes_last hv).mpr ⟨hline.key, (hlast rfl).2⟩
            exact ⟨htakes, (lineOk_iff htakes ⟨hline.key, hline.value⟩ self error).mp hline⟩
    | cons next rest =>
      have htext : fileText final (line :: next :: rest) =
          line.key ++ '=' :: (line.value ++ newline :: fileText final (next :: rest)) := rfl
      rw [htext] at hn ⊢
      have hshort : (fileText final (next :: rest)).length < m := by
        simp only [List.length_append, List.length_cons] at hn
        omega
      rw [taken_turn rfl (Stream.readPair_line line _), fileOk_cons]
      constructor
      · rintro ⟨htakes, ⟨hnil, -⟩ | ⟨self', error', hnext, hrest⟩⟩
        · exact absurd hnil (by simp)
        · refine ⟨(lineOk_iff (p := p) htakes ((takes_line line).mp htakes) self error).mpr ?_, ?_,
            (ih self' error' hshort).mp hrest⟩
          · simp [hnext]
          · refine (not_stop_iff htakes self error).mp ?_
            rintro ⟨_, _, he⟩
            exact absurd (hnext.symm.trans he) (by simp)
      · rintro ⟨hline, hreq, hrest⟩
        have htakes := (takes_line line).mpr ⟨hline.key, hline.value⟩
        obtain ⟨self', error', hnext⟩ := not_next
          ((lineOk_iff htakes ⟨hline.key, hline.value⟩ self error).mp hline)
          ((not_stop_iff htakes self error).mpr hreq)
        exact ⟨htakes, .inr ⟨self', error', hnext, (ih self' error' hshort).mpr hrest⟩⟩

end Loop

/-- The read loop ends, and takes exactly the pairs of the file, each key that is
looked for with its value and without dereferencing a missing token, if and only if
the file is one of these. -/
theorem metadataFile_taken_iff (p : MetadataParsers) (final : Bool) (lines : List MetadataLine)
    (self : EbuildFields) :
    (∃ r, (∀ n, (fileText final lines).length < n →
        metadataLoop p n { rest := fileText final lines, eof := false } self.resetKeywords 0 = some r) ∧
      Taken lines (some r)) ↔ FileOk p final lines := by
  obtain ⟨r, hr, hmore⟩ := metadataLoop_ends p ((fileText final lines).length + 1)
    { rest := fileText final lines, eof := false } self.resetKeywords 0 (Nat.lt_succ_self _)
  rw [← taken_iff final lines self.resetKeywords 0 (Nat.lt_succ_self _), hr]
  constructor
  · rintro ⟨r', hr', htaken⟩
    rwa [← hr' _ (Nat.lt_succ_self _), hr] at htaken
  · intro htaken
    exact ⟨r, hmore, htaken⟩

/-- The parsers take everything. -/
def anyParsers : MetadataParsers where
  dependParse _ := .node .disable 0 none .null .null
  requiredUseParse _ := .node none .leastOne .null .null

/-- `SLOT=0` without a newline is read as a slot of no characters. -/
theorem unfinished_line_crashes : ¬ ∀ (p : MetadataParsers) (final : Bool) (lines : List MetadataLine)
    (self : EbuildFields), ∃ r, (∀ n, (fileText final lines).length < n →
      metadataLoop p n { rest := fileText final lines, eof := false } self.resetKeywords 0 = some r) ∧
        Taken lines (some r) := by
  intro hall
  let line : MetadataLine := ⟨"SLOT".toList, ['0'], by decide, by decide⟩
  obtain ⟨r, hr, pairs, ending, hpairs, hcrash, -⟩ := hall anyParsers false [line] .fresh
  have hrun := (hr 7 (by decide)).trans hpairs
  have hend : metadataLoop anyParsers 7 { rest := fileText false [line], eof := false }
      EbuildFields.fresh.resetKeywords 0 = some ([("SLOT".toList, [])], .crash) := rfl
  rw [hend] at hrun
  exact hcrash (Prod.mk.inj (Option.some.inj hrun)).2.symm

end AutoGentoo
