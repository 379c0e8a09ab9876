import AutoGentoo.PackageOrder
import AutoGentoo.RepositoryIndex

/-! The order in which `readdir` lists a repository makes no difference to the chains of
the packages, nor to what `match_atom` finds. -/

namespace AutoGentoo

open CString Lut Session StableInsertion ThreeWay

/-- The versions of the files of a package, as its ebuilds have them. -/
def versionsOf (names : List CacheName) (key : List Char) : Set Ebuild :=
  { e | ∃ c ∈ names, c.key = key ∧ e.version = some c.atomVersion }

/-- `atom_version_compare` is a total preorder on the versions of each package, and tells
its files apart. -/
structure ToldApart (names : List CacheName) : Prop where
  preordered : ∀ key, Preordered (versionsOf names key)
  apart : ∀ c ∈ names, ∀ c' ∈ names, c.key = c'.key →
    atomVersionCompare (some c.atomVersion) (some c'.atomVersion) = some 0 → c.origin = c'.origin

def NewestFirst (p : Portage) : Prop := ∀ a pkg, p.deref a = some pkg → Ordered newer pkg.ebuilds

variable {p q : Portage} {names done : List CacheName} {keys : List (List Char)} {last : Nat}

theorem Indexed.file_of_mem (h : Indexed p last keys done) {a : Nat} {pkg : Package} (hpkg : p.deref a = some pkg)
    {e : Ebuild} (he : e ∈ pkg.ebuilds) : ∃ c ∈ done, c.key = pkg.key ∧ c.origin = e.origin := by
  have hmem := (h.ebuilds a pkg hpkg).subset (List.mem_map_of_mem he)
  obtain ⟨c, hc, horigin⟩ := List.mem_map.mp hmem
  obtain ⟨hc, hkey⟩ := List.mem_filter.mp hc
  exact ⟨c, hc, of_decide_eq_true hkey, horigin⟩

theorem Indexed.versions (h : Indexed p last keys done) (hdone : ∀ c ∈ done, c ∈ names) {a : Nat} {pkg : Package}
    (hpkg : p.deref a = some pkg) {e : Ebuild} (he : e ∈ pkg.ebuilds) : e ∈ versionsOf names pkg.key := by
  obtain ⟨c, hc, hkey, horigin⟩ := h.file_of_mem hpkg he
  exact ⟨c, hdone c hc, hkey, (congrArg Prod.snd horigin).symm⟩

theorem packageFor_newestFirst (h : NewestFirst p) {ebuild : Ebuild} {flags : Nat} {r : Portage × Nat}
    (hr : p.packageFor ebuild flags = some (.ok r)) : NewestFirst r.1 := by
  simp only [Portage.packageFor] at hr
  split_ifs at hr with hnew
  · obtain ⟨⟨made, address⟩, hmade, hr⟩ := Option.bind_eq_some_iff.mp hr
    obtain ⟨lut, hlut, hr⟩ := Option.bind_eq_some_iff.mp hr
    obtain rfl := Except.ok.inj (Option.some.inj hr)
    obtain ⟨-, -, pkg, -, hempty, -, hderef⟩ := newPackage_deref hmade
    intro a x hx
    have hx' : made.deref a = some x := hx
    rw [hderef] at hx'
    split_ifs at hx'
    · rw [← Option.some.inj hx', hempty]
      exact List.Pairwise.nil
    · exact h a x hx'
  · exact absurd hr (by simp)
  · obtain rfl := Except.ok.inj (Option.some.inj hr)
    exact h

/-- A new ebuild comes to its place in the chain of its package. -/
theorem addEbuildAt_newestFirst (h : NewestFirst p) {address : Nat} {pkg : Package} {ebuild : Ebuild}
    (hpkg : p.deref address = some pkg) {s : Set Ebuild} (hs : Preordered s) (hebuild : ebuild ∈ s)
    (hes : ∀ e ∈ pkg.ebuilds, e ∈ s) (hnew : ebuild.addr ∉ pkg.ebuilds.map Ebuild.addr)
    (hr : p.addEbuildAt address ebuild false = some (.ok q)) : NewestFirst q := by
  obtain ⟨pkg', hpkg', hr⟩ := Option.bind_eq_some_iff.mp hr
  obtain rfl := Option.some.inj (hpkg.symm.trans hpkg')
  rw [Package.addEbuild, if_neg (by simp), hs.addLoop_eq hebuild hes hnew] at hr
  obtain rfl := Except.ok.inj (Option.some.inj hr)
  intro a x hx
  rw [deref_store hpkg] at hx
  split_ifs at hx
  · rw [← Option.some.inj hx]
    exact (h address pkg hpkg).orderedInsert hs.weakOrderOn hes hebuild
  · exact h a x hx

theorem initializeFile_newestFirst (hapart : ToldApart names) (hindexed : Indexed p p.made keys done)
    (hdone : ∀ c ∈ done, c ∈ names) (h : NewestFirst p) {file : RepoFile} {c : CacheName} (hc : file.Named c)
    (hcname : c ∈ names) (hk : KeyOk p [] c.key) (hq : p.initializeFile file = some (.ok q)) :
    NewestFirst q := by
  obtain ⟨made, hmade, hq⟩ := Option.bind_eq_some_iff.mp hq
  cases made with
  | error e => exact absurd hq (by simp)
  | ok made =>
    obtain ⟨ebuild, flags⟩ := made
    obtain ⟨horigin, hkey, haddr, hid⟩ := ebuildInit_named hc hmade
    obtain ⟨found, hfound, hq⟩ := Option.bind_eq_some_iff.mp hq
    cases found with
    | error e => exact absurd hq (by simp)
    | ok found =>
      obtain ⟨hready, -, pkg, hpkg, hpkgkey⟩ :=
        (hindexed.counted (p.made + 1)).packageFor (hkey.symm ▸ hid) (hkey.symm ▸ hk) hfound
      obtain ⟨added, hadded, hq⟩ := Option.bind_eq_some_iff.mp hq
      obtain ⟨q', rfl, -⟩ := hready.addEbuild hpkg (hpkgkey.trans hkey) hkey horigin haddr hadded
      obtain rfl := Except.ok.inj (Option.some.inj hq)
      have hnew : ebuild.addr ∉ pkg.ebuilds.map Ebuild.addr := by
        intro hmem
        obtain ⟨e, he, heq⟩ := List.mem_map.mp hmem
        have hle := hready.made _ pkg hpkg e he
        omega
      exact addEbuildAt_newestFirst (packageFor_newestFirst (p := { p with made := p.made + 1 }) h hfound) hpkg
        (hapart.preordered pkg.key) ⟨c, hcname, (hpkgkey.trans hkey).symm, congrArg Prod.snd horigin⟩
        (fun e he => hready.versions hdone hpkg he) hnew hadded

theorem ReadAll.newestFirst {files : List RepoFile} (hread : ReadAll p files q) (hapart : ToldApart names)
    (hfew : FewCollisions (names.map CacheName.key)) {listed : List CacheName}
    (hnamed : List.Forall₂ RepoFile.Named files listed) (hlisted : ∀ c ∈ listed, c ∈ names)
    (hp : Indexed p p.made (done.map CacheName.key) done) (hdone : ∀ c ∈ done, c ∈ names) (h : NewestFirst p) :
    NewestFirst q := by
  induction hread generalizing listed done with
  | nil p => exact h
  | cons hfile _ ih =>
    cases hnamed with
    | @cons _ c _ listed hc hrest =>
      have hcname := hlisted c List.mem_cons_self
      have hk := hp.keyOk hfew (fun c' hc' => List.mem_map_of_mem (hdone c' hc')) (List.mem_map_of_mem hcname)
      have hdone' : ∀ c' ∈ c :: done, c' ∈ names := fun c' hc' =>
        (List.mem_cons.mp hc').elim (fun he => he ▸ hcname) (hdone c')
      have hstep : Indexed _ _ ((c :: done).map CacheName.key) (c :: done) := hp.initializeFile hc hk hfile
      exact ih hrest (fun c' hc' => hlisted c' (List.mem_cons_of_mem c hc')) hstep hdone' (initializeFile_newestFirst hapart hp hdone h hc hcname hk hfile)

/-- What is left of a repository that has been read in some order. -/
structure Read (p : Portage) (names : List CacheName) : Prop where
  indexed : ∃ done, done.Perm names ∧ Indexed p p.made (done.map CacheName.key) done
  newestFirst : NewestFirst p

theorem readCategories_read {entries : List CategoryEntry} {n : Nat} (hlists : Lists entries names)
    (hfew : FewCollisions (names.map CacheName.key)) (hapart : ToldApart names)
    (h : readCategories Portage.init 0 entries = some (.ok (p, n))) : Read p names ∧ n = names.length % 2 ^ 32 := by
  obtain ⟨listed, hnamed, hperm⟩ := hlists
  obtain ⟨hread, hn⟩ := readCategories_ok (by decide) h
  have hlisted : ∀ c ∈ listed, c ∈ names := fun c hc => hperm.subset hc
  have hnone : ∀ a, Portage.init.deref a = none := fun a => by cases a <;> rfl
  have hinit : Indexed Portage.init 0 (([] : List CacheName).map CacheName.key) [] := indexed_init
  refine ⟨⟨⟨listed.reverse, (List.reverse_perm listed).trans hperm, ?_⟩, ?_⟩, ?_⟩
  · rw [← List.append_nil listed.reverse]
    exact hread.indexed hnamed indexed_init hfew fun c hc =>
      List.mem_map_of_mem (hlisted c (by simpa using hc))
  · refine hread.newestFirst hapart hfew hnamed hlisted hinit (fun c hc => absurd hc (by simp)) fun a pkg hpkg => ?_
    exact absurd ((hnone a).symm.trans hpkg) (by simp)
  · rw [hn, Nat.zero_add, hnamed.length_eq, hperm.length_eq]

theorem Read.filed (h : Read p names) (key : List Char) :
    content p.packages key ≠ none ↔ key ∈ names.map CacheName.key := by
  obtain ⟨done, hperm, hindexed⟩ := h.indexed
  rw [hindexed.filed, (hperm.map CacheName.key).mem_iff]

/-- The chain of a package is the files of its key from the newest on. -/
theorem Read.chain (h : Read p names) (h' : Read q names) (hapart : ToldApart names) {a b : Nat} {pkg pkg' : Package}
    (hpkg : p.deref a = some pkg) (hpkg' : q.deref b = some pkg') (hkey : pkg.key = pkg'.key) :
    pkg.ebuilds.map Ebuild.origin = pkg'.ebuilds.map Ebuild.origin := by
  obtain ⟨done, hperm, hindexed⟩ := h.indexed
  obtain ⟨done', hperm', hindexed'⟩ := h'.indexed
  let newerFile : List Char × Option AtomVersion → List Char × Option AtomVersion → Prop := fun x y =>
    (atomVersionCompare x.2 y.2).any (0 < ·) = true
  have hordered : ∀ {p a pkg}, NewestFirst p → p.deref a = some pkg →
      Ordered newerFile (pkg.ebuilds.map Ebuild.origin) := fun hp ha => List.pairwise_map.mpr (hp _ _ ha)
  have hsame : (pkg.ebuilds.map Ebuild.origin).Perm (pkg'.ebuilds.map Ebuild.origin) := by
    have hfiles := (hindexed.ebuilds a pkg hpkg).trans ((hperm.filter _).map _)
    have hfiles' := (hindexed'.ebuilds b pkg' hpkg').trans ((hperm'.filter _).map _)
    rw [hkey] at hfiles
    exact hfiles.trans hfiles'.symm
  refine Ordered.unique (hordered h.newestFirst hpkg) (hordered h'.newestFirst hpkg') hsame ?_
  rintro _ hx _ hy heq
  obtain ⟨e, he, rfl⟩ := List.mem_map.mp hx
  obtain ⟨f, hf, rfl⟩ := List.mem_map.mp hy
  obtain ⟨c, hc, hckey, hce⟩ := hindexed.file_of_mem hpkg he
  obtain ⟨d, hd, hdkey, hdf⟩ := hindexed.file_of_mem hpkg hf
  have hversions := fun {e} => hindexed.versions (e := e) (fun c hc => hperm.subset hc) hpkg
  obtain ⟨v, w, hv, hw, hopposite⟩ := (hapart.preordered pkg.key).compare (hversions he) (hversions hf)
  have hzero := (same_iff hv hw hopposite).mp heq
  rw [← hce, ← hdf]
  refine hapart.apart c (hperm.subset hc) d (hperm.subset hd) (hckey.trans hdkey.symm) ?_
  rw [show some c.atomVersion = e.version from congrArg Prod.snd hce,
    show some d.atomVersion = f.version from congrArg Prod.snd hdf, hv, hzero]

/-- The answer without the object that carries it. -/
def foundFile (answer : Except PortageError (Option Ebuild)) :
    Except PortageError (Option (List Char × Option AtomVersion)) := answer.map fun e => e.map Ebuild.origin

theorem foundFile_ok (answer : Option (Option Ebuild)) : (answer.map Except.ok).map foundFile =
    (answer.map fun e => e.map Ebuild.origin).map Except.ok := by
  cases answer <;> rfl

theorem matchLoop_origin {a b : Atom} (hversion : a.version = b.version) (hrange : a.range = b.range)
    {es es' : List Ebuild} (h : es.map Ebuild.origin = es'.map Ebuild.origin) :
    (Package.matchLoop a es).map (fun e => e.map Ebuild.origin) =
      (Package.matchLoop b es').map fun e => e.map Ebuild.origin := by
  induction es generalizing es' with
  | nil =>
    obtain rfl := List.map_eq_nil_iff.mp h.symm
    rfl
  | cons e es ih =>
    cases es' with
    | nil => exact absurd h (by simp)
    | cons f es' =>
      obtain ⟨horigin, hrest⟩ := List.cons.inj h
      have hef : e.version = f.version := congrArg Prod.snd horigin
      rw [Package.matchLoop, Package.matchLoop, hef, hversion, hrange]
      cases atomVersionCompare f.version b.version with
      | none => rfl
      | some d =>
        simp only [Option.bind_eq_bind, Option.bind_some]
        split_ifs
        · exact congrArg (fun x => some (some x)) horigin
        · rfl
        · exact ih hrest

theorem atomInit_same {lut lut' : Lut} {input : List Char} {a b : Atom} (ha : atomInit lut input = .ok a)
    (hb : atomInit lut' input = .ok b) : a.key = b.key ∧ a.version = b.version := by
  rw [atomInit_eq] at ha hb
  cases hfields : atomFields input with
  | none => exact absurd ha (by simp [hfields])
  | some atom =>
    have hhashed : ∀ {self made : Atom}, self.hashed = .ok made → made.key = self.key ∧ made.version = self.version := by
      intro self made h
      rw [Atom.hashed] at h
      split at h
      · exact absurd h (by simp)
      · obtain rfl := Except.ok.inj h
        exact ⟨rfl, rfl⟩
    simp only [hfields] at ha hb
    obtain ⟨hkey, hversion⟩ := hhashed ha
    obtain ⟨hkey', hversion'⟩ := hhashed hb
    exact ⟨hkey.trans hkey'.symm, hversion.trans hversion'.symm⟩

/-- An atom made now finds the package of its key, if there is one. -/
theorem Read.matchAtom (h : Read p names) {input : List Char} {atom : Atom} (ha : atomInit p.packages input = .ok atom)
    (range : AtomRange) :
    (content p.packages atom.key = none ∧ p.matchAtom { atom with range := range } = some (.error (.keyError atom.key))) ∨
      ∃ a pkg, p.deref a = some pkg ∧ pkg.key = atom.key ∧
        p.matchAtom { atom with range := range } = (pkg.matchAtom { atom with range := range }).map .ok := by
  obtain ⟨done, -, hindexed⟩ := h.indexed
  have hid := atomInit_id ha
  cases hc : content p.packages atom.key with
  | none =>
    obtain ⟨id, hfound, -, hget, -⟩ := hindexed.inv.valid.absent hc (hindexed.inv.few _)
    obtain ⟨rfl, -⟩ := Prod.mk.inj (hid.symm.trans hfound)
    refine .inl ⟨rfl, ?_⟩
    rw [Portage.matchAtom, hget]
    rfl
  | some c =>
    obtain ⟨id, d⟩ := c
    obtain ⟨hfound, hget, -⟩ := hindexed.inv.valid.found hc
    obtain ⟨pkg, hpkg, hkey⟩ := hindexed.inv.filed _ _ _ hc
    obtain ⟨rfl, -⟩ := Prod.mk.inj (hid.symm.trans hfound)
    refine .inr ⟨d, pkg, hpkg, hkey, ?_⟩
    rw [Portage.matchAtom, hget, hpkg]

/-- Two repositories with the same files, listed in any orders: the packages have the same
chains, and every atom made afterwards finds the same file. -/
theorem readdir_order_irrelevant {entries entries' : List CategoryEntry} {n m : Nat} (hlists : Lists entries names)
    (hlists' : Lists entries' names) (hfew : FewCollisions (names.map CacheName.key)) (hapart : ToldApart names)
    (hp : readCategories Portage.init 0 entries = some (.ok (p, n)))
    (hq : readCategories Portage.init 0 entries' = some (.ok (q, m))) :
    n = m ∧ (∀ pkg ∈ p.objects, ∃ pkg' ∈ q.objects, pkg'.key = pkg.key) ∧
      (∀ pkg ∈ p.objects, ∀ pkg' ∈ q.objects, pkg.key = pkg'.key →
        pkg.ebuilds.map Ebuild.origin = pkg'.ebuilds.map Ebuild.origin) ∧
      ∀ input range a b, atomInit p.packages input = .ok a → atomInit q.packages input = .ok b →
        (p.matchAtom { a with range := range }).map foundFile =
          (q.matchAtom { b with range := range }).map foundFile := by
  obtain ⟨hread, hn⟩ := readCategories_read hlists hfew hapart hp
  obtain ⟨hread', hm⟩ := readCategories_read hlists' hfew hapart hq
  refine ⟨hn.trans hm.symm, fun pkg hpkg => ?_, fun pkg hpkg pkg' hpkg' hkey => ?_, fun input range a b ha hb => ?_⟩
  · obtain ⟨done, -, hindexed⟩ := hread.indexed
    obtain ⟨done', -, hindexed'⟩ := hread'.indexed
    obtain ⟨x, hx⟩ := deref_of_mem hpkg
    obtain ⟨i, hi⟩ := hindexed.registered x pkg hx
    have hkey : content q.packages pkg.key ≠ none := by
      rw [hread'.filed, ← hread.filed, hi]
      simp
    obtain ⟨⟨j, y⟩, hj⟩ := Option.ne_none_iff_exists'.mp hkey
    obtain ⟨pkg', hpkg', hsame⟩ := hindexed'.inv.filed _ _ _ hj
    exact ⟨pkg', deref_mem hpkg', hsame⟩
  · obtain ⟨x, hx⟩ := deref_of_mem hpkg
    obtain ⟨y, hy⟩ := deref_of_mem hpkg'
    exact hread.chain hread' hapart hx hy hkey
  · obtain ⟨hkey, hversion⟩ := atomInit_same ha hb
    rcases hread.matchAtom ha range with ⟨hnone, hanswer⟩ | ⟨x, pkg, hx, hxkey, hanswer⟩
    · rcases hread'.matchAtom hb range with ⟨-, hanswer'⟩ | ⟨y, pkg', hy, hykey, -⟩
      · rw [hanswer, hanswer', hkey]
      · obtain ⟨done', -, hindexed'⟩ := hread'.indexed
        obtain ⟨j, hj⟩ := hindexed'.registered y pkg' hy
        have hfiled : content p.packages a.key ≠ none := by
          rw [hread.filed, ← hread'.filed, hkey, ← hykey, hj]
          simp
        exact absurd hnone hfiled
    · rcases hread'.matchAtom hb range with ⟨hnone, -⟩ | ⟨y, pkg', hy, hykey, hanswer'⟩
      · obtain ⟨done, -, hindexed⟩ := hread.indexed
        obtain ⟨i, hi⟩ := hindexed.registered x pkg hx
        have hfiled : content q.packages b.key ≠ none := by
          rw [hread'.filed, ← hread.filed, ← hkey, ← hxkey, hi]
          simp
        exact absurd hnone hfiled
      · have hchain := hread.chain hread' hapart hx hy (hxkey.trans (hkey.trans hykey.symm))
        have hloop := matchLoop_origin (a := { a with range := range }) (b := { b with range := range })
          hversion rfl hchain
        rw [hanswer, hanswer', foundFile_ok, foundFile_ok, Package.matchAtom, hloop, Package.matchAtom]

/-- `app-misc/foo` in a version. -/
theorem no_slash_app_misc : '/' ∉ "app-misc".toList := by decide

def fooFile (v : VersionText) : CacheName where
  category := ⟨"app-misc".toList, no_slash_app_misc⟩
  name := "foo".toList
  version := v

def fooEntry (v : VersionText) : CacheEntry where
  name := (fooFile v).fileName
  ebuildFound := true
  cacheFile := some (fooFile v).path

def fooListing (versions : List VersionText) : List CategoryEntry :=
  [{ name := "app-misc".toList, isDir := some true, files := some (versions.map fooEntry) }]

def fooNames : List CacheName := [fooFile Package.foo10, fooFile Package.foo20]

theorem foo_few : FewCollisions (fooNames.map CacheName.key) :=
  .of_length (by decide)

theorem foo_toldApart : ToldApart fooNames := by
  have h12 : atomVersionCompare (some (fooFile Package.foo10).atomVersion) (some (fooFile Package.foo20).atomVersion) =
      some (-1) := by decide
  have h21 : atomVersionCompare (some (fooFile Package.foo20).atomVersion) (some (fooFile Package.foo10).atomVersion) =
      some 1 := by decide
  have hversions : ∀ {key e}, e ∈ versionsOf fooNames key →
      ∃ f ∈ ({fooEbuild 1 Package.foo10, fooEbuild 2 Package.foo20} : Set Ebuild), e.version = f.version := by
    rintro key e ⟨c, hc, -, hversion⟩
    rcases List.mem_cons.mp hc with rfl | hc
    · exact ⟨_, .inl rfl, hversion⟩
    · obtain rfl := List.mem_singleton.mp hc
      exact ⟨_, .inr rfl, hversion⟩
  refine ⟨fun key => ⟨fun a ha b hb => ?_, fun a ha b hb c hc => ?_⟩, fun c hc d hd _ hzero => ?_⟩
  · obtain ⟨a', ha', hav⟩ := hversions ha
    obtain ⟨b', hb', hbv⟩ := hversions hb
    rw [hav, hbv]
    exact PackageMemory.foo_preordered.opposite a' ha' b' hb'
  · obtain ⟨a', ha', hav⟩ := hversions ha
    obtain ⟨b', hb', hbv⟩ := hversions hb
    obtain ⟨c', hc', hcv⟩ := hversions hc
    rw [hav, hbv, hcv]
    exact PackageMemory.foo_preordered.transitive a' ha' b' hb' c' hc'
  · simp only [fooNames, List.mem_cons, List.not_mem_nil, or_false] at hc hd
    rcases hc with rfl | rfl <;> rcases hd with rfl | rfl
    · rfl
    · exact absurd (h12.symm.trans hzero) (by decide)
    · exact absurd (h21.symm.trans hzero) (by decide)
    · rfl

section

variable {versions : List VersionText}

theorem foo_version (hperm : (versions.map fooFile).Perm fooNames) {v : VersionText} (hv : v ∈ versions) :
    v = Package.foo10 ∨ v = Package.foo20 := by
  have hfile := hperm.subset (List.mem_map_of_mem hv)
  simp only [fooNames, List.mem_cons, List.not_mem_nil, or_false] at hfile
  exact hfile.imp (fun h => congrArg CacheName.version h) fun h => congrArg CacheName.version h

theorem foo_readable (hperm : (versions.map fooFile).Perm fooNames) :
    List.Forall₂ (CacheEntry.Readable "app-misc".toList) (versions.map fooEntry) (versions.map fooFile) := by
  rw [List.forall₂_map_left_iff, List.forall₂_map_right_iff]
  refine List.forall₂_same.mpr fun v hv => ⟨⟨rfl, rfl⟩, rfl, by simp [fooEntry], ?_⟩
  rcases foo_version hperm hv with rfl | rfl <;> decide

theorem foo_lists (hperm : (versions.map fooFile).Perm fooNames) : Lists (fooListing versions) fooNames := by
  have hreadable := foo_readable hperm
  refine ⟨versions.map fooFile, ?_, hperm⟩
  rw [fooListing, repoFiles_one (by decide), List.forall₂_map_left_iff]
  · exact hreadable.imp fun _ _ h => h.1
  · intro entry hentry
    obtain ⟨v, hv, rfl⟩ := List.mem_map.mp hentry
    rcases foo_version hperm hv with rfl | rfl <;> decide

theorem foo_read (hperm : (versions.map fooFile).Perm fooNames) :
    ∃ r, readCategories Portage.init 0 (fooListing versions) = some (.ok r) := by
  have hall : ∀ c ∈ versions.map fooFile ++ [], c.key ∈ fooNames.map CacheName.key := fun c hc =>
    List.mem_map_of_mem (hperm.subset (by simpa using hc))
  have hcompare : ∀ c ∈ versions.map fooFile ++ [], ∀ c' ∈ versions.map fooFile ++ [],
      (VersionText.compare c.version c'.version).isSome = true := by
    intro c hc c' hc'
    obtain ⟨v, hv, rfl⟩ := List.mem_map.mp (List.append_nil _ ▸ hc)
    obtain ⟨v', hv', rfl⟩ := List.mem_map.mp (List.append_nil _ ▸ hc')
    rcases foo_version hperm hv with rfl | rfl <;> rcases foo_version hperm hv' with rfl | rfl <;> decide
  obtain ⟨r, hr⟩ := readFiles_some (foo_readable hperm) indexed_init foo_few hall hcompare 0
  exact ⟨r, readCategories_one (by decide) hr⟩

end

theorem readdir_order_irrelevant_foo : ∃ p q, ∃ n m : Nat,
    readCategories Portage.init 0 (fooListing [Package.foo10, Package.foo20]) = some (.ok (p, n)) ∧
      readCategories Portage.init 0 (fooListing [Package.foo20, Package.foo10]) = some (.ok (q, m)) ∧ n = m ∧
      ∀ pkg ∈ p.objects, ∀ pkg' ∈ q.objects, pkg.key = pkg'.key →
        pkg.ebuilds.map Ebuild.origin = pkg'.ebuilds.map Ebuild.origin := by
  have hone : ([Package.foo10, Package.foo20].map fooFile).Perm fooNames := List.Perm.refl _
  have htwo : ([Package.foo20, Package.foo10].map fooFile).Perm fooNames := List.Perm.swap _ _ _
  obtain ⟨⟨p, n⟩, hp⟩ := foo_read hone
  obtain ⟨⟨q, m⟩, hq⟩ := foo_read htwo
  obtain ⟨hn, -, hchains, -⟩ :=
    readdir_order_irrelevant (foo_lists hone) (foo_lists htwo) foo_few foo_toldApart hp hq
  exact ⟨p, q, n, m, hp, hq, hn, hchains⟩

end AutoGentoo
