import AutoGentoo.PortageIds
import AutoGentoo.VersionCompare

/-! The directories `initialize_repository` walks, and what `ebuild_init` makes of the
name of a file. -/

namespace AutoGentoo

open CString Lut Session

/-- A file in a directory of the cache, with what `realpath` finds. -/
structure CacheEntry where
  name : List Char
  ebuildFound : Bool
  cacheFile : Option (List Char)
  deriving DecidableEq, Repr

/-- An entry of the cache directory: what `stat` says of it and `opendir` shows. -/
structure CategoryEntry where
  name : List Char
  isDir : Option Bool
  files : Option (List CacheEntry)
  deriving DecidableEq, Repr

inductive ReadError
  | cannotStat | cannotOpen
  | file (e : PortageError)
  deriving DecidableEq, Repr

def hidden (name : List Char) : Bool := name.head? = some '.'

def skipped (name : List Char) : Bool := hidden name || name = "Manifest.gz".toList

def CacheEntry.file (self : CacheEntry) (category : List Char) : RepoFile where
  category := category
  nameAndVersion := self.name
  ebuildFound := self.ebuildFound
  cacheFile := self.cacheFile

/-- The inner loop, with the count in 32 bits. -/
def readFiles (category : List Char) (self : Portage) (i : Nat) :
    List CacheEntry → Option (Except ReadError (Portage × Nat))
  | [] => some (.ok (self, i))
  | entry :: entries =>
    if skipped entry.name then readFiles category self i entries
    else do
      match ← self.initializeFile (entry.file category) with
      | .error e => return .error (.file e)
      | .ok self => readFiles category self ((i + 1) % 2 ^ 32) entries

/-- The outer loop. -/
def readCategories (self : Portage) (i : Nat) :
    List CategoryEntry → Option (Except ReadError (Portage × Nat))
  | [] => some (.ok (self, i))
  | entry :: entries =>
    match entry.isDir with
    | none => some (.error .cannotStat)
    | some isDir =>
      if hidden entry.name || !isDir then readCategories self i entries
      else
        match entry.files with
        | none => some (.error .cannotOpen)
        | some files => do
          match ← readFiles entry.name self i files with
          | .error e => return .error e
          | .ok (self, i) => readCategories self i entries

/-- The files the loops come to. -/
def CategoryEntry.repoFiles (self : CategoryEntry) : List RepoFile :=
  if hidden self.name || !self.isDir.getD false then []
  else ((self.files.getD []).filter fun entry => !skipped entry.name).map fun entry => entry.file self.name

/-- The files have been read one after another, each without an error. -/
inductive ReadAll : Portage → List RepoFile → Portage → Prop
  | nil (p : Portage) : ReadAll p [] p
  | cons {p q r : Portage} {file : RepoFile} {files : List RepoFile}
      (hfile : p.initializeFile file = some (.ok q)) (hrest : ReadAll q files r) :
      ReadAll p (file :: files) r

theorem ReadAll.append {p q r : Portage} {files files' : List RepoFile} (h : ReadAll p files q)
    (h' : ReadAll q files' r) : ReadAll p (files ++ files') r := by
  induction h with
  | nil p => exact h'
  | cons hfile _ ih => exact .cons hfile (ih h')

/-- The repository of the portage at the end is the one `initialize_repository` leaves. -/
theorem ReadAll.initializeRepository {p q : Portage} {files : List RepoFile} (h : ReadAll p files q) :
    p.initializeRepository files = some q := by
  induction h with
  | nil p => rfl
  | cons hfile _ ih => simp [Portage.initializeRepository, hfile, ih]

theorem readFiles_ok {category : List Char} {entries : List CacheEntry} {p q : Portage} {i n : Nat}
    (hi : i < 2 ^ 32) (h : readFiles category p i entries = some (.ok (q, n))) :
    ReadAll p ((entries.filter fun entry => !skipped entry.name).map fun entry => entry.file category) q ∧
      n = (i + (entries.filter fun entry => !skipped entry.name).length) % 2 ^ 32 := by
  induction entries generalizing p i with
  | nil =>
    obtain ⟨rfl, rfl⟩ := Prod.mk.inj (Except.ok.inj (Option.some.inj h))
    exact ⟨.nil _, (Nat.mod_eq_of_lt hi).symm⟩
  | cons entry entries ih =>
    rw [readFiles] at h
    by_cases hs : skipped entry.name = true
    · rw [if_pos hs] at h
      rw [List.filter_cons_of_neg (by simp [hs])]
      exact ih hi h
    · rw [if_neg hs] at h
      obtain ⟨made, hmade, hrest⟩ := Option.bind_eq_some_iff.mp h
      cases made with
      | error e => exact absurd hrest (by simp)
      | ok r =>
        obtain ⟨hread, hn⟩ := ih (Nat.mod_lt _ (by decide)) hrest
        rw [List.filter_cons_of_pos (by simp [hs])]
        refine ⟨.cons hmade hread, ?_⟩
        rw [hn, List.length_cons]
        omega

theorem readCategories_ok {entries : List CategoryEntry} {p q : Portage} {i n : Nat} (hi : i < 2 ^ 32)
    (h : readCategories p i entries = some (.ok (q, n))) :
    ReadAll p (entries.flatMap CategoryEntry.repoFiles) q ∧
      n = (i + (entries.flatMap CategoryEntry.repoFiles).length) % 2 ^ 32 := by
  induction entries generalizing p i with
  | nil =>
    obtain ⟨rfl, rfl⟩ := Prod.mk.inj (Except.ok.inj (Option.some.inj h))
    exact ⟨.nil _, (Nat.mod_eq_of_lt hi).symm⟩
  | cons entry entries ih =>
    rw [readCategories] at h
    rw [List.flatMap_cons, CategoryEntry.repoFiles]
    cases hd : entry.isDir with
    | none => exact absurd h (by simp [hd])
    | some isDir =>
      simp only [hd] at h
      rw [Option.getD_some]
      by_cases hs : (hidden entry.name || !isDir) = true
      · rw [if_pos hs] at h
        rw [if_pos hs, List.nil_append]
        exact ih hi h
      · rw [if_neg hs] at h
        rw [if_neg hs]
        cases hf : entry.files with
        | none => exact absurd h (by simp [hf])
        | some files =>
          simp only [hf] at h
          rw [Option.getD_some]
          obtain ⟨made, hmade, hrest⟩ := Option.bind_eq_some_iff.mp h
          cases made with
          | error e => exact absurd hrest (by simp)
          | ok r =>
            obtain ⟨hread, hm⟩ := readFiles_ok hi hmade
            obtain ⟨hread', hn⟩ := ih (hm ▸ Nat.mod_lt _ (by decide)) hrest
            refine ⟨hread.append hread', ?_⟩
            rw [hn, hm, List.length_append, List.length_map]
            omega

/-- The name of a cache file `category/name-version`. -/
structure CacheName where
  category : { s : List Char // '/' ∉ s }
  name : List Char
  version : VersionText

namespace CacheName

def fileName (self : CacheName) : List Char := self.name ++ '-' :: self.version.render

def path (self : CacheName) : List Char := self.category.1 ++ '/' :: self.fileName

/-- The key of its package. -/
def key (self : CacheName) : List Char := self.category.1 ++ '/' :: self.name

def atomVersion (self : CacheName) : AtomVersion := atomVersionInit self.version.render

end CacheName

theorem strchr_append {p q : List Char} {c : Char} (h : c ∉ p) :
    strchr (p ++ c :: q) c = some p.length := by
  rw [strchr, List.findIdx?_append, List.findIdx?_eq_none_iff.mpr ?_]
  · simp [List.findIdx?_cons]
  · intro x hx
    exact beq_eq_false_iff_ne.mpr fun he => h (he ▸ hx)

theorem get_behind (p q : List Char) (k : Nat) : (p ++ q)[p.length + k]? = q[k]? := by
  rw [List.getElem?_append_right (Nat.le_add_right _ _), Nat.add_sub_cancel_left]

theorem drop_behind (p : List Char) (c : Char) (q : List Char) : (p ++ c :: q).drop (p.length + 1) = q := by
  rw [List.drop_length_add_append]
  rfl

theorem VersionText.body_head (t : VersionText) : ∃ c rest, t.body = c :: rest ∧ c.isDigit = true := by
  have hfirst : ∃ x, numericText t.first t.more t.letter = t.first.1 ++ x := by
    cases t.more with
    | nil => exact ⟨_, rfl⟩
    | cons e more => exact ⟨_, rfl⟩
  obtain ⟨x, hx⟩ := hfirst
  obtain ⟨hne, hdigit⟩ := t.first.2
  obtain ⟨c, s, hs⟩ := List.exists_cons_of_ne_nil hne
  refine ⟨c, s ++ (x ++ t.suffixes.flatMap suffixText), ?_, hdigit c (by simp [hs])⟩
  rw [VersionText.body, hx, hs, List.append_assoc, List.cons_append]

theorem versionDash_last {front : List Char} {k : Nat} (hdash : strrchr front '-' = some k)
    (hdigit : digitAt front (k + 1) = true) : versionDash front = some k := by
  rw [versionDash]
  simp only [hdash, hdigit, if_true]

/-- In front of a revision the dash before is looked for. -/
theorem versionDash_revision {front : List Char} (r : Digits) {k : Nat}
    (hdash : strrchr front '-' = some k) (hdigit : digitAt front (k + 1) = true) :
    versionDash (front ++ '-' :: 'r' :: r.1) = some k := by
  obtain ⟨hne, hdigits⟩ := r.2
  obtain ⟨d, s, hs⟩ := List.exists_cons_of_ne_nil hne
  have hnot : '-' ∉ 'r' :: r.1 := by
    intro h
    rcases List.mem_cons.mp h with h | h
    · exact absurd h (by decide)
    · simpa using hdigits _ h
  have hone := get_behind front ('-' :: 'r' :: r.1) 1
  have htwo := get_behind front ('-' :: 'r' :: r.1) 2
  rw [hs] at htwo
  have hr : digitAt (front ++ '-' :: 'r' :: r.1) (front.length + 1) = false := by
    rw [digitAt, hone]
    rfl
  have hd : digitAt (front ++ '-' :: 'r' :: r.1) (front.length + 2) = true := by
    rw [digitAt, hs, htwo]
    exact hdigits d (by simp [hs])
  have htake : (front ++ '-' :: 'r' :: r.1).take front.length = front := List.take_left
  rw [versionDash]
  simp only [strrchr_append hnot, hr, hone, hd, htake, hdash, hdigit, Bool.false_eq_true, if_false,
    if_true, List.getElem?_cons_succ, List.getElem?_cons_zero, decide_true, Bool.and_self]

theorem versionDash_append (name : List Char) (t : VersionText) :
    versionDash (name ++ '-' :: t.render) = some name.length := by
  obtain ⟨c, rest, hbody, hc⟩ := t.body_head
  have hdash : strrchr (name ++ '-' :: t.body) '-' = some name.length :=
    strrchr_append t.dash_not_mem_body
  have hdigit : digitAt (name ++ '-' :: t.body) (name.length + 1) = true := by
    rw [digitAt, get_behind, hbody]
    exact hc
  rw [VersionText.render]
  cases hr : t.revision with
  | none =>
    rw [VersionText.revisionText, List.append_nil]
    exact versionDash_last hdash hdigit
  | some r =>
    have he : name ++ '-' :: (t.body ++ VersionText.revisionText (some r)) =
        (name ++ '-' :: t.body) ++ '-' :: 'r' :: r.1 := by
      simp [VersionText.revisionText]
    rw [he]
    exact versionDash_revision r hdash hdigit

theorem pyAtomHash_ne_none {self : Atom} {v : AtomVersion} {text : List Char}
    (hv : self.version = some v) (ht : v.fullVersion = some text) : pyAtomHash self ≠ none := by
  simp [pyAtomHash, hv, ht]

theorem atomInit_dash (packages : Lut) (category : { s : List Char // '/' ∉ s }) {name text : List Char}
    (hdash : versionDash (name ++ '-' :: text) = some name.length)
    (hfull : (atomVersionInit text).fullVersion = some text) :
    ∃ atom, atomInit packages (category.1 ++ '/' :: (name ++ '-' :: text)) = .ok atom ∧
      atom.key = category.1 ++ '/' :: name ∧ atom.version = some (atomVersionInit text) := by
  have hslash : strchr (category.1 ++ '/' :: (name ++ '-' :: text)) '/' = some category.1.length :=
    strchr_append category.2
  simp only [atomInit, hslash, List.take_left, drop_behind, hdash, Option.map_some]
  split
  · next hnone =>
    exact absurd hnone (pyAtomHash_ne_none rfl hfull)
  · exact ⟨_, rfl, rfl, rfl⟩

theorem atomInit_path (packages : Lut) (c : CacheName) : ∃ atom,
    atomInit packages c.path = .ok atom ∧ atom.key = c.key ∧ atom.version = some c.atomVersion :=
  atomInit_dash packages c.category (versionDash_append c.name c.version) c.version.init_render.1

end AutoGentoo
