import AutoGentoo.RepositoryFiles

/-! The packages `initialize_repository` leaves, against the files it has read. -/

namespace AutoGentoo

open CString Lut Session

/-- The file an ebuild was made from, and its version. -/
def Ebuild.origin (self : Ebuild) : List Char × Option AtomVersion := (self.key, self.version)

def CacheName.origin (self : CacheName) : List Char × Option AtomVersion :=
  (self.path, some self.atomVersion)

def RepoFile.Named (self : RepoFile) (c : CacheName) : Prop :=
  self.category = c.category.1 ∧ self.nameAndVersion = c.fileName

/-- The loops come to the named files, in some order. -/
def Lists (entries : List CategoryEntry) (names : List CacheName) : Prop :=
  ∃ listed, List.Forall₂ RepoFile.Named (entries.flatMap CategoryEntry.repoFiles) listed ∧
    listed.Perm names

/-- The table has these keys, each for one object, and the objects have the ebuilds
of these files, made up to the number `last`. -/
structure Indexed (p : Portage) (last : Nat) (keys : List (List Char)) (done : List CacheName) : Prop where
  inv : Inv p []
  filed : ∀ key, content p.packages key ≠ none ↔ key ∈ keys
  done_keys : ∀ c ∈ done, c.key ∈ keys
  registered : ∀ a pkg, p.deref a = some pkg → ∃ i, content p.packages pkg.key = some (i, a)
  ebuilds : ∀ a pkg, p.deref a = some pkg →
    (pkg.ebuilds.map Ebuild.origin).Perm ((done.filter (·.key = pkg.key)).map CacheName.origin)
  made : ∀ a pkg, p.deref a = some pkg → ∀ e ∈ pkg.ebuilds, e.addr ≤ last

theorem ebuildInit_named {packages : Lut} {addr flags : Nat} {file : RepoFile} {c : CacheName}
    {ebuild : Ebuild} (hc : file.Named c)
    (h : ebuildInit packages addr file = some (.ok (ebuild, flags))) :
    ebuild.origin = c.origin ∧ ebuild.packageKey = c.key ∧ ebuild.addr = addr ∧
      lutGetId packages c.key = (ebuild.packageId, flags) := by
  obtain ⟨atom, hatom, hkey, hversion⟩ := atomInit_path packages c
  have hpath : file.category ++ '/' :: file.nameAndVersion = c.path := by rw [hc.1, hc.2, CacheName.path]
  obtain ⟨-, hid⟩ := ebuildInit_key h
  simp only [ebuildInit, hpath, hatom, hversion, Option.isNone_some, Bool.false_eq_true, if_false] at h
  split_ifs at h
  · exact absurd h (by simp)
  · cases hf : file.cacheFile with
    | none => exact absurd h (by simp [hf])
    | some path =>
      simp only [hf, Option.some.injEq, Except.ok.injEq, Prod.mk.injEq] at h
      obtain ⟨rfl, -⟩ := h
      exact ⟨rfl, hkey, rfl, hkey ▸ hid⟩

/-- The new ebuild comes between those of the chain. -/
theorem addLoop_perm {ebuild : Ebuild} {es : List Ebuild} (hnew : ∀ e ∈ es, e.addr ≠ ebuild.addr)
    {r : Except AddEbuildError (List Ebuild)} (h : Package.addLoop ebuild es = some r) :
    ∃ es', r = .ok es' ∧ es'.Perm (ebuild :: es) := by
  induction es generalizing r with
  | nil =>
    obtain rfl : .ok [ebuild] = r := Option.some.inj h
    exact ⟨[ebuild], rfl, List.Perm.refl _⟩
  | cons current older ih =>
    rw [Package.addLoop, if_neg fun he => hnew current List.mem_cons_self he.symm] at h
    obtain ⟨d, -, h⟩ := Option.bind_eq_some_iff.mp h
    split_ifs at h with hd
    · obtain rfl := Option.some.inj h
      exact ⟨_, rfl, List.Perm.refl _⟩
    · obtain ⟨rest, hrest, h⟩ := Option.bind_eq_some_iff.mp h
      obtain ⟨es', rfl, hperm⟩ := ih (fun e he => hnew e (List.mem_cons_of_mem _ he)) hrest
      obtain rfl := Option.some.inj h
      exact ⟨current :: es', rfl, (hperm.cons current).trans (List.Perm.swap _ _ _)⟩

theorem newPackage_deref {p : Portage} {key : List Char} {id : Nat} {r : Portage × Nat}
    (h : p.newPackage key id = some r) : r.1.packages = p.packages ∧ r.1.made = p.made ∧
      ∃ pkg, pkg.key = key ∧ pkg.ebuilds = [] ∧ p.deref r.2 = none ∧
        ∀ a, r.1.deref a = if a = r.2 then some pkg else p.deref a := by
  obtain ⟨split, -, rfl⟩ := Option.map_eq_some_iff.mp h
  let pkg : Package :=
    { packageId := id, category := split.1, name := split.2, key := key, ebuilds := [] }
  refine ⟨rfl, rfl, pkg, rfl, rfl, List.getElem?_eq_none (Nat.le_refl _), fun a => ?_⟩
  cases a with
  | zero => rw [if_neg (by omega)]; rfl
  | succ a =>
    simp only [Portage.deref, Nat.add_right_cancel_iff]
    split_ifs with ha
    · subst ha
      exact List.getElem?_concat_length
    · rw [List.getElem?_append]
      split_ifs with hlt
      · rfl
      · rw [List.getElem?_eq_none (by simp; omega), List.getElem?_eq_none (by omega)]

theorem inserted_new {p : Portage} (hi : Inv p []) {key : List Char} {id flags data : Nat} {lut : Lut}
    (hnone : content p.packages key = none) (hid : lutGetId p.packages key = (id, flags))
    (h : lutInsertId p.packages key data id (lutFlagNotFound ||| lutFlagPython) = some lut) :
    Inserted p.packages lut key id data := by
  obtain ⟨i, habs, -⟩ := hi.valid.absent hnone (hi.few _)
  obtain ⟨rfl, rfl⟩ := Prod.mk.inj (hid.symm.trans habs)
  have hpy : lutFlagPython ∈ callerFlags := by decide
  obtain ⟨lut', hins, hi'⟩ := lutInsert_spec hi.valid { key := key, data := data, flags := lutFlagPython }
    (fun _ => hi.few _) hpy
  simp only [lutInsert, hid, h, Option.bind_eq_bind, Option.bind_some, Option.pure_def,
    Option.some.injEq, Prod.mk.injEq, and_true] at hins
  rw [hins]
  simpa only [hid] using hi'

/-- The package of the file is there afterwards, new and without ebuilds or as it was. -/
theorem Indexed.packageFor {p : Portage} {last : Nat} {keys : List (List Char)} {done : List CacheName}
    (h : Indexed p last keys done) {ebuild : Ebuild} {flags : Nat} {r : Portage × Nat}
    (hid : lutGetId p.packages ebuild.packageKey = (ebuild.packageId, flags))
    (hk : KeyOk p [] ebuild.packageKey) (hr : p.packageFor ebuild flags = some (.ok r)) :
    Indexed r.1 last (ebuild.packageKey :: keys) done ∧ r.1.made = p.made ∧ ∃ pkg,
      r.1.deref r.2 = some pkg ∧ pkg.key = ebuild.packageKey := by
  obtain ⟨hinv, hpkg⟩ := h.inv.packageFor hid hk hr
  have hflag := lutGetId_flag h.inv ebuild.packageKey
  rw [hid] at hflag
  have hkeys : ∀ c ∈ done, c.key ∈ ebuild.packageKey :: keys := fun c hc =>
    List.mem_cons_of_mem _ (h.done_keys c hc)
  simp only [Portage.packageFor] at hr
  split_ifs at hr with hnew
  · have hnone := hflag.mpr hnew
    obtain ⟨⟨q, address⟩, hq, hr⟩ := Option.bind_eq_some_iff.mp hr
    obtain ⟨lut, hlut, hr⟩ := Option.bind_eq_some_iff.mp hr
    obtain rfl := Except.ok.inj (Option.some.inj hr)
    obtain ⟨hpackages, hmade, pkg, hkey, hempty, hfresh, hderef⟩ := newPackage_deref hq
    have hcontent : content lut = Function.update (content p.packages) ebuild.packageKey
        (some (ebuild.packageId, address)) :=
      (inserted_new h.inv hnone hid (hpackages ▸ hlut)).content_eq
    have hother : ∀ a x, p.deref a = some x → x.key ≠ ebuild.packageKey := by
      intro a x hx he
      obtain ⟨i, hi⟩ := h.registered a x hx
      rw [he, hnone] at hi
      exact absurd hi (by simp)
    have hcases : ∀ a x, q.deref a = some x → a = address ∧ x = pkg ∨ p.deref a = some x := by
      intro a x hx
      rw [hderef] at hx
      split_ifs at hx with ha
      · exact .inl ⟨ha, (Option.some.inj hx).symm⟩
      · exact .inr hx
    refine ⟨⟨hinv, fun key => ?_, hkeys, fun a x hx => ?_, fun a x hx => ?_, fun a x hx => ?_⟩, hmade, hpkg⟩
    · rw [hcontent]
      by_cases hk : key = ebuild.packageKey
      · subst hk
        simp
      · rw [Function.update_of_ne hk, h.filed, List.mem_cons]
        exact ⟨.inr, fun hm => hm.resolve_left hk⟩
    · rw [hcontent]
      rcases hcases a x hx with ⟨rfl, rfl⟩ | hx
      · rw [hkey, Function.update_self]
        exact ⟨_, rfl⟩
      · rw [Function.update_of_ne (hother a x hx)]
        exact h.registered a x hx
    · rcases hcases a x hx with ⟨rfl, rfl⟩ | hx
      · have hnil : done.filter (·.key = x.key) = [] := by
          refine List.filter_eq_nil_iff.mpr fun c hc he => ?_
          refine (h.filed _).mpr (h.done_keys c hc) ?_
          rw [of_decide_eq_true he, hkey]
          exact hnone
        rw [hempty, hnil]
        exact List.Perm.refl _
      · exact h.ebuilds a x hx
    · rcases hcases a x hx with ⟨rfl, rfl⟩ | hx
      · rw [hempty]
        exact fun e he => absurd he (by simp)
      · exact h.made a x hx
  · exact absurd hr (by simp)
  · obtain rfl := Except.ok.inj (Option.some.inj hr)
    have hmem : ebuild.packageKey ∈ keys := by
      rw [← h.filed]
      exact fun hnone => hnew (hflag.mp hnone)
    refine ⟨⟨hinv, fun key => ?_, hkeys, h.registered, h.ebuilds, h.made⟩, rfl, hpkg⟩
    rw [h.filed, List.mem_cons]
    constructor
    · exact .inr
    · rintro (rfl | hkey)
      · exact hmem
      · exact hkey

/-- `add_ebuild` files a new ebuild, if the comparisons come to an end. -/
theorem addEbuildAt_perm {p : Portage} {address : Nat} {pkg : Package} {ebuild : Ebuild}
    (hpkg : p.deref address = some pkg) (hnew : ∀ e ∈ pkg.ebuilds, e.addr ≠ ebuild.addr)
    {r : Except PortageError Portage} (hr : p.addEbuildAt address ebuild false = some r) :
    ∃ es, es.Perm (ebuild :: pkg.ebuilds) ∧ r = .ok (p.store address { pkg with ebuilds := es }) := by
  obtain ⟨pkg', hpkg', hr⟩ := Option.bind_eq_some_iff.mp hr
  obtain rfl := Option.some.inj (hpkg.symm.trans hpkg')
  obtain ⟨added, hadd, hr⟩ := Option.bind_eq_some_iff.mp hr
  rw [Package.addEbuild, if_neg (by simp)] at hadd
  obtain ⟨walked, hwalk, rfl⟩ := Option.map_eq_some_iff.mp hadd
  obtain ⟨es, rfl, hperm⟩ := addLoop_perm hnew hwalk
  exact ⟨es, hperm, (Option.some.inj hr).symm⟩

theorem Indexed.addEbuild {p : Portage} {last : Nat} {keys : List (List Char)} {done : List CacheName}
    (h : Indexed p last keys done) {address : Nat} {pkg : Package} {ebuild : Ebuild} {c : CacheName}
    (hpkg : p.deref address = some pkg) (hkey : pkg.key = c.key) (hpackage : ebuild.packageKey = c.key)
    (horigin : ebuild.origin = c.origin) (hnew : ebuild.addr = last + 1)
    {r : Except PortageError Portage} (hr : p.addEbuildAt address ebuild false = some r) :
    ∃ q, r = .ok q ∧ Indexed q (last + 1) keys (c :: done) ∧ q.made = p.made := by
  have hless : ∀ e ∈ pkg.ebuilds, e.addr ≠ ebuild.addr := by
    intro e he
    have hle := h.made address pkg hpkg e he
    omega
  obtain ⟨es, hperm, rfl⟩ := addEbuildAt_perm hpkg hless hr
  obtain ⟨i, hi⟩ := h.registered address pkg hpkg
  have hinv : Inv (p.store address { pkg with ebuilds := es }) [] := by
    refine h.inv.addEbuildAt (fun x hx => ?_) hr
    rw [← Option.some.inj (hpkg.symm.trans hx), hkey, hpackage]
  have hcases : ∀ a x, (p.store address { pkg with ebuilds := es }).deref a = some x →
      (a = address ∧ x = { pkg with ebuilds := es }) ∨ (p.deref a = some x ∧ c.key ≠ x.key) := by
    intro a x hx
    rw [deref_store hpkg] at hx
    split_ifs at hx with ha
    · exact .inl ⟨ha, (Option.some.inj hx).symm⟩
    · refine .inr ⟨hx, fun he => ha ?_⟩
      obtain ⟨j, hj⟩ := h.registered a x hx
      rw [← he, ← hkey, hi] at hj
      exact (Prod.mk.inj (Option.some.inj hj)).2.symm
  refine ⟨_, rfl, ⟨hinv, h.filed, ?_, fun a x hx => ?_, fun a x hx => ?_, fun a x hx => ?_⟩, rfl⟩
  · intro c' hc'
    rcases List.mem_cons.mp hc' with rfl | hc'
    · rw [← h.filed, ← hkey, hi]
      simp
    · exact h.done_keys c' hc'
  · rcases hcases a x hx with ⟨rfl, rfl⟩ | ⟨hx, -⟩
    · exact ⟨i, hi⟩
    · exact h.registered a x hx
  · rcases hcases a x hx with ⟨rfl, rfl⟩ | ⟨hx, hne⟩
    · have hold := h.ebuilds a pkg hpkg
      rw [List.filter_cons_of_pos (by simp [hkey]), List.map_cons, ← horigin]
      exact (hperm.map Ebuild.origin).trans (hold.cons _)
    · rw [List.filter_cons_of_neg (by simp [hne])]
      exact h.ebuilds a x hx
  · rcases hcases a x hx with ⟨rfl, rfl⟩ | ⟨hx, -⟩
    · intro e he
      rcases List.mem_cons.mp (hperm.subset he) with rfl | he
      · exact hnew.le
      · exact Nat.le_succ_of_le (h.made a pkg hpkg e he)
    · exact fun e he => Nat.le_succ_of_le (h.made a x hx e he)

theorem Indexed.counted {p : Portage} {last : Nat} {keys : List (List Char)} {done : List CacheName}
    (h : Indexed p last keys done) (made : Nat) : Indexed { p with made := made } last keys done :=
  ⟨⟨h.inv.valid, h.inv.few, h.inv.filed, h.inv.owned, h.inv.ids⟩, h.filed, h.done_keys, h.registered,
    h.ebuilds, h.made⟩

theorem Indexed.initializeFile {p q : Portage} {keys : List (List Char)} {done : List CacheName}
    (h : Indexed p p.made keys done) {file : RepoFile} {c : CacheName} (hc : file.Named c)
    (hk : KeyOk p [] c.key) (hq : p.initializeFile file = some (.ok q)) :
    Indexed q q.made (c.key :: keys) (c :: done) := by
  obtain ⟨made, hmade, hq⟩ := Option.bind_eq_some_iff.mp hq
  cases made with
  | error e => exact absurd hq (by simp)
  | ok made =>
    obtain ⟨ebuild, flags⟩ := made
    obtain ⟨horigin, hkey, haddr, hid⟩ := ebuildInit_named hc hmade
    have hcounted := h.counted (p.made + 1)
    obtain ⟨found, hfound, hq⟩ := Option.bind_eq_some_iff.mp hq
    cases found with
    | error e => exact absurd hq (by simp)
    | ok found =>
      obtain ⟨hready, hsame, pkg, hpkg, hpkgkey⟩ :=
        hcounted.packageFor (hkey.symm ▸ hid) (hkey.symm ▸ hk) hfound
      obtain ⟨added, hadded, hq⟩ := Option.bind_eq_some_iff.mp hq
      obtain ⟨q', rfl, hindexed, hsame'⟩ :=
        hready.addEbuild hpkg (hpkgkey.trans hkey) hkey horigin haddr hadded
      obtain rfl := Except.ok.inj (Option.some.inj hq)
      rw [hkey] at hindexed
      rw [hsame', hsame]
      exact hindexed

theorem Indexed.keyOk {p : Portage} {last : Nat} {done : List CacheName} {all : List (List Char)}
    (h : Indexed p last (done.map CacheName.key) done) (hfew : FewCollisions all)
    (hdone : ∀ c ∈ done, c.key ∈ all) {key : List Char} (hkey : key ∈ all) : KeyOk p [] key := by
  intro hnone
  refine ⟨absent_room h.inv.valid (fun k hk => ?_) hfew hkey hnone, fun atom hatom => absurd hatom (by simp)⟩
  obtain ⟨c, hc, rfl⟩ := List.mem_map.mp ((h.filed k).mp hk)
  exact hdone c hc

theorem indexed_init : Indexed Portage.init 0 [] [] := by
  have hderef : ∀ a, Portage.init.deref a = none := by
    intro a
    cases a <;> rfl
  refine ⟨inv_init, fun key => ?_, fun c hc => absurd hc (by simp), ?_, ?_, ?_⟩
  · rw [show Portage.init.packages = lutNew Portage.initialSize from rfl, lutNew_content]
    simp
  all_goals
    intro a pkg h
    exact absurd ((hderef a).symm.trans h) (by simp)

theorem ReadAll.indexed {p q : Portage} {files : List RepoFile} (h : ReadAll p files q)
    {listed done : List CacheName} (hnamed : List.Forall₂ RepoFile.Named files listed)
    (hp : Indexed p p.made (done.map CacheName.key) done) {all : List (List Char)}
    (hfew : FewCollisions all) (hall : ∀ c ∈ listed ++ done, c.key ∈ all) :
    Indexed q q.made ((listed.reverse ++ done).map CacheName.key) (listed.reverse ++ done) := by
  induction h generalizing listed done with
  | nil p =>
    cases hnamed
    exact hp
  | cons hfile _ ih =>
    cases hnamed with
    | @cons _ c _ listed hc hrest =>
      have hk := hp.keyOk hfew (fun c' hc' => hall c' (List.mem_append_right _ hc'))
        (hall c (List.mem_append_left _ List.mem_cons_self))
      have hstep : Indexed _ _ ((c :: done).map CacheName.key) (c :: done) := hp.initializeFile hc hk hfile
      have hmem : ∀ c' ∈ listed ++ c :: done, c'.key ∈ all := fun c' hc' =>
        hall c' (List.perm_middle.subset hc')
      simpa only [List.reverse_cons, List.append_assoc, List.singleton_append] using ih hrest hstep hmem

theorem deref_of_mem {p : Portage} {pkg : Package} (h : pkg ∈ p.objects) :
    ∃ a, p.deref a = some pkg := by
  obtain ⟨i, hi⟩ := List.mem_iff_getElem?.mp h
  exact ⟨i + 1, hi⟩

theorem Indexed.objects_nodup {p : Portage} {last : Nat} {keys : List (List Char)}
    {done : List CacheName} (h : Indexed p last keys done) : (p.objects.map Package.key).Nodup := by
  refine List.nodup_iff_getElem?_ne_getElem?.mpr fun i j hij hj he => ?_
  rw [List.length_map] at hj
  have hx := List.getElem?_eq_getElem (hij.trans hj)
  have hy := List.getElem?_eq_getElem hj
  simp only [List.getElem?_map, hx, hy, Option.map_some, Option.some.injEq] at he
  obtain ⟨k, hk⟩ := h.registered (i + 1) _ hx
  obtain ⟨k', hk'⟩ := h.registered (j + 1) _ hy
  rw [he, hk', Option.some.injEq, Prod.mk.injEq] at hk
  omega

/-- Nothing stops the walk of `add_ebuild` where all comparisons are defined. -/
theorem addLoop_isSome {ebuild : Ebuild} {es : List Ebuild}
    (h : ∀ e ∈ es, (atomVersionCompare ebuild.version e.version).isSome = true) :
    (Package.addLoop ebuild es).isSome = true := by
  induction es with
  | nil => rfl
  | cons current older ih =>
    obtain ⟨d, hd⟩ := Option.isSome_iff_exists.mp (h current List.mem_cons_self)
    obtain ⟨r, hr⟩ := Option.isSome_iff_exists.mp (ih fun e he => h e (List.mem_cons_of_mem _ he))
    rw [Package.addLoop]
    split_ifs
    · rfl
    · simp only [hd, hr, Option.bind_eq_bind, Option.bind_some]
      split_ifs <;> rfl

theorem ebuildInit_some {packages : Lut} {addr : Nat} {file : RepoFile} {c : CacheName}
    (hc : file.Named c) (hebuild : file.ebuildFound = true) (hcache : file.cacheFile ≠ none) :
    ∃ made, ebuildInit packages addr file = some (.ok made) := by
  obtain ⟨atom, hatom, -, hversion⟩ := atomInit_path packages c
  have hpath : file.category ++ '/' :: file.nameAndVersion = c.path := by rw [hc.1, hc.2, CacheName.path]
  obtain ⟨path, hpathname⟩ := Option.ne_none_iff_exists'.mp hcache
  simp [ebuildInit, hpath, hatom, hversion, hebuild, hpathname]

theorem splitKey_isSome {key : List Char} (h : '/' ∈ key) : (Portage.splitKey key).isSome = true := by
  rw [Portage.splitKey, Option.isSome_map, strchr, List.findIdx?_isSome]
  exact List.any_eq_true.mpr ⟨'/', h, rfl⟩

theorem packageFor_some {p : Portage} (hi : Inv p []) {ebuild : Ebuild} {flags : Nat}
    (hslash : '/' ∈ ebuild.packageKey)
    (hid : lutGetId p.packages ebuild.packageKey = (ebuild.packageId, flags)) :
    ∃ r, p.packageFor ebuild flags = some (.ok r) := by
  have hflag := lutGetId_flag hi ebuild.packageKey
  rw [hid] at hflag
  simp only [Portage.packageFor]
  split_ifs with hnew hderef
  · obtain ⟨split, hsplit⟩ := Option.isSome_iff_exists.mp (splitKey_isSome hslash)
    obtain ⟨i, habs, -⟩ := hi.valid.absent (hflag.mpr hnew) (hi.few _)
    obtain ⟨rfl, rfl⟩ := Prod.mk.inj (hid.symm.trans habs)
    have hpy : lutFlagPython ∈ callerFlags := by decide
    obtain ⟨lut', hins, -⟩ := lutInsert_spec hi.valid
      { key := ebuild.packageKey, data := p.objects.length + 1, flags := lutFlagPython }
      (fun _ => hi.few _) hpy
    rw [lutInsert] at hins
    simp only [hid, Option.bind_eq_bind, Option.bind_eq_some_iff] at hins
    obtain ⟨lut, hlut, -⟩ := hins
    simp [Portage.newPackage, hsplit, hlut]
  · cases hc : content p.packages ebuild.packageKey with
    | none => exact absurd (hflag.mp hc) hnew
    | some found =>
      obtain ⟨i, d⟩ := found
      obtain ⟨hid', hget, -⟩ := hi.valid.found hc
      obtain ⟨pkg, hpkg, -⟩ := hi.filed _ _ _ hc
      obtain ⟨rfl, -⟩ := Prod.mk.inj (hid.symm.trans hid')
      rw [hget, hpkg] at hderef
      exact absurd hderef (by simp)
  · exact ⟨_, rfl⟩

/-- A file is read where its version compares with those there are. -/
theorem Indexed.initializeFile_some {p : Portage} {done : List CacheName}
    (h : Indexed p p.made (done.map CacheName.key) done) {file : RepoFile} {c : CacheName}
    (hc : file.Named c) (hebuild : file.ebuildFound = true) (hcache : file.cacheFile ≠ none)
    (hk : KeyOk p [] c.key)
    (hcompare : ∀ c' ∈ done, (VersionText.compare c.version c'.version).isSome = true) :
    ∃ q, p.initializeFile file = some (.ok q) := by
  have hsome : ∃ made, ebuildInit p.packages (p.made + 1) file = some (.ok made) :=
    ebuildInit_some hc hebuild hcache
  obtain ⟨⟨ebuild, flags⟩, hmade⟩ := hsome
  obtain ⟨horigin, hkey, haddr, hid⟩ := ebuildInit_named hc hmade
  have hcounted := h.counted (p.made + 1)
  have hslash : '/' ∈ ebuild.packageKey := by
    rw [hkey, CacheName.key]
    exact List.mem_append_right _ List.mem_cons_self
  obtain ⟨⟨q, address⟩, hfound⟩ := packageFor_some hcounted.inv hslash (hkey.symm ▸ hid)
  obtain ⟨hready, hsame, pkg, hpkg, hpkgkey⟩ :=
    hcounted.packageFor (hkey.symm ▸ hid) (hkey.symm ▸ hk) hfound
  have hwalk : (Package.addLoop ebuild pkg.ebuilds).isSome = true := by
    refine addLoop_isSome fun e he => ?_
    have hmem := (hready.ebuilds address pkg hpkg).subset (List.mem_map_of_mem he)
    obtain ⟨c', hc', horigin'⟩ := List.mem_map.mp hmem
    have hversion : ebuild.version = some c.atomVersion := congrArg Prod.snd horigin
    have hversion' : some c'.atomVersion = e.version := congrArg Prod.snd horigin'
    rw [hversion, ← hversion']
    exact hcompare c' (List.mem_filter.mp hc').1
  obtain ⟨walked, hwalked⟩ := Option.isSome_iff_exists.mp hwalk
  have hadd : ∃ r, q.addEbuildAt address ebuild false = some r := by
    have hwalked' : pkg.addEbuild ebuild false =
        some (walked.map fun es => { pkg with ebuilds := es }) := by
      rw [Package.addEbuild, if_neg (by simp), hwalked, Option.map_some]
    simp only [Portage.addEbuildAt, hpkg, hwalked', Option.bind_eq_bind, Option.bind_some]
    cases walked <;> exact ⟨_, rfl⟩
  obtain ⟨r, hr⟩ := hadd
  obtain ⟨q', rfl, -, -⟩ := hready.addEbuild hpkg (hpkgkey.trans hkey) hkey horigin haddr hr
  exact ⟨q', by simp [Portage.initializeFile, hmade, hfound, hr]⟩

/-- A file of the directory that is found and not passed over. -/
def CacheEntry.Readable (category : List Char) (self : CacheEntry) (c : CacheName) : Prop :=
  (self.file category).Named c ∧ self.ebuildFound = true ∧ self.cacheFile ≠ none ∧
    skipped self.name = false

theorem readFiles_some {category : List Char} {entries : List CacheEntry} {listed : List CacheName}
    (hentries : List.Forall₂ (CacheEntry.Readable category) entries listed) {p : Portage}
    {done : List CacheName} (hp : Indexed p p.made (done.map CacheName.key) done)
    {all : List (List Char)} (hfew : FewCollisions all) (hall : ∀ c ∈ listed ++ done, c.key ∈ all)
    (hcompare : ∀ c ∈ listed ++ done, ∀ c' ∈ listed ++ done,
      (VersionText.compare c.version c'.version).isSome = true) (i : Nat) :
    ∃ r, readFiles category p i entries = some (.ok r) := by
  induction hentries generalizing p done i with
  | nil => exact ⟨_, rfl⟩
  | @cons entry c entries listed hentry _ ih =>
    obtain ⟨hnamed, hebuild, hcache, hskip⟩ := hentry
    have hfirst : c ∈ c :: listed ++ done := List.mem_append_left _ List.mem_cons_self
    have hdone : ∀ c' ∈ done, c' ∈ c :: listed ++ done := fun c' hc' => List.mem_append_right _ hc'
    have hmem : ∀ c' ∈ listed ++ c :: done, c' ∈ c :: listed ++ done := fun c' hc' =>
      List.perm_middle.subset hc'
    have hk := hp.keyOk hfew (fun c' hc' => hall c' (hdone c' hc')) (hall c hfirst)
    obtain ⟨q, hq⟩ := hp.initializeFile_some hnamed hebuild hcache hk
      fun c' hc' => hcompare c hfirst c' (hdone c' hc')
    have hstep : Indexed q q.made ((c :: done).map CacheName.key) (c :: done) :=
      hp.initializeFile hnamed hk hq
    obtain ⟨r, hr⟩ := ih hstep (fun c' hc' => hall c' (hmem c' hc'))
      (fun c' hc' c'' hc'' => hcompare c' (hmem c' hc') c'' (hmem c'' hc'')) ((i + 1) % 2 ^ 32)
    refine ⟨r, ?_⟩
    simp only [readFiles, hskip, Bool.false_eq_true, if_false, hq, Option.bind_eq_bind, Option.bind_some]
    exact hr

/-- The bits of a number as digits, the lowest first. -/
def bitDigits (k : Nat) : Digits :=
  ⟨(List.range 32).map fun i => if k.testBit i then '1' else '0', by simp, fun c hc => by
    obtain ⟨i, -, rfl⟩ := List.mem_map.mp hc
    split_ifs <;> rfl⟩

/-- `app-misc/foo-1.0` in the revision of these digits. -/
def revised (k : Nat) : CacheName where
  category := ⟨"app-misc".toList, by decide⟩
  name := "foo".toList
  version := { Package.foo10 with revision := some (bitDigits k) }

def revisedEntry (k : Nat) : CacheEntry where
  name := (revised k).fileName
  ebuildFound := true
  cacheFile := some (revised k).path

theorem revised_compare (k k' : Nat) :
    (VersionText.compare (revised k).version (revised k').version).isSome = true := by
  have hparts : ∀ k, (revised k).version.parts = Package.foo10.parts := fun _ => rfl
  have hloop : ∀ revs, VersionText.loop revs Package.foo10.parts Package.foo10.parts = some revs :=
    fun _ => rfl
  rw [VersionText.compare_eq, hparts, hparts, hloop]
  rfl

theorem bitDigits_inj {k k' : Nat} (hk : k < 2 ^ 32) (hk' : k' < 2 ^ 32)
    (h : (bitDigits k).1 = (bitDigits k').1) : k = k' := by
  refine Nat.eq_of_testBit_eq fun i => ?_
  by_cases hi : i < 32
  · have hget := congrArg (·[i]?) h
    simp only [bitDigits, List.getElem?_map, List.getElem?_range hi, Option.map_some,
      Option.some.injEq] at hget
    split_ifs at hget with h1 h2 h2
    · rw [h1, h2]
    · exact absurd hget (by decide)
    · exact absurd hget (by decide)
    · rw [Bool.not_eq_true] at h1 h2
      rw [h1, h2]
  · have hpow : 2 ^ 32 ≤ 2 ^ i := Nat.pow_le_pow_right (by decide) (by omega)
    rw [Nat.testBit_lt_two_pow (hk.trans_le hpow), Nat.testBit_lt_two_pow (hk'.trans_le hpow)]

theorem revised_path_inj {k k' : Nat} (hk : k < 2 ^ 32) (hk' : k' < 2 ^ 32)
    (h : (revised k).path = (revised k').path) : k = k' := by
  have hpath : ∀ k, (revised k).path = "app-misc/foo-1.0-r".toList ++ (bitDigits k).1 := fun _ => rfl
  rw [hpath, hpath] at h
  exact bitDigits_inj hk hk' (List.append_cancel_left h)

/-- A cache of the first `m` of these files. -/
def revisedEntries (m : Nat) : List CategoryEntry :=
  [{ name := "app-misc".toList, isDir := some true, files := some ((List.range m).map revisedEntry) }]

def revisedNames (m : Nat) : List CacheName := (List.range m).map revised

theorem revisedEntry_skipped (k : Nat) : skipped (revisedEntry k).name = false := by
  obtain ⟨rest, hrest⟩ : ∃ rest, (revisedEntry k).name = 'f' :: rest := ⟨_, rfl⟩
  rw [hrest]
  simp [skipped, hidden]

theorem revised_readable (l : List Nat) :
    List.Forall₂ (CacheEntry.Readable "app-misc".toList) (l.map revisedEntry) (l.map revised) := by
  induction l with
  | nil => exact .nil
  | cons k l ih => exact .cons ⟨⟨rfl, rfl⟩, rfl, by simp [revisedEntry], revisedEntry_skipped k⟩ ih

theorem repoFiles_one {category : List Char} {files : List CacheEntry} (hshown : hidden category = false)
    (hfiles : ∀ entry ∈ files, skipped entry.name = false) :
    [{ name := category, isDir := some true, files := some files : CategoryEntry }].flatMap
      CategoryEntry.repoFiles = files.map fun entry => entry.file category := by
  have hself : (files.filter fun entry => !skipped entry.name) = files :=
    List.filter_eq_self.mpr fun entry hentry => by rw [hfiles entry hentry]; rfl
  simp [CategoryEntry.repoFiles, hshown, hself]

theorem revised_repoFiles (m : Nat) : (revisedEntries m).flatMap CategoryEntry.repoFiles =
    ((List.range m).map revisedEntry).map fun entry => entry.file "app-misc".toList := by
  refine repoFiles_one (by decide) fun entry hentry => ?_
  obtain ⟨k, -, rfl⟩ := List.mem_map.mp hentry
  exact revisedEntry_skipped k

theorem revised_lists (m : Nat) : Lists (revisedEntries m) (revisedNames m) := by
  refine ⟨revisedNames m, ?_, List.Perm.refl _⟩
  rw [revised_repoFiles, List.forall₂_map_left_iff]
  exact (revised_readable (List.range m)).imp fun _ _ h => h.1

theorem revised_few (m : Nat) : FewCollisions ((revisedNames m).map CacheName.key) := by
  intro h
  have hone : ((revisedNames m).map CacheName.key).dedup ⊆ [(revised 0).key] := by
    intro key hkey
    obtain ⟨c, hc, rfl⟩ := List.mem_map.mp (List.mem_dedup.mp hkey)
    obtain ⟨k, -, rfl⟩ := List.mem_map.mp hc
    exact List.mem_singleton.mpr rfl
  have hlen := ((List.nodup_dedup _).subperm hone).length_le
  refine ((List.length_filter_le _ _).trans hlen).trans_lt ?_
  rw [List.length_singleton]
  decide

theorem readCategories_one {category : List Char} {files : List CacheEntry} {p : Portage} {i : Nat}
    {r : Portage × Nat} (hshown : hidden category = false)
    (h : readFiles category p i files = some (.ok r)) :
    readCategories p i [{ name := category, isDir := some true, files := some files }] = some (.ok r) := by
  simp [readCategories, hshown, h]

theorem revised_read (m : Nat) : ∃ r, readCategories Portage.init 0 (revisedEntries m) = some (.ok r) := by
  have hall : ∀ c ∈ revisedNames m ++ [], c.key ∈ (revisedNames m).map CacheName.key := fun c hc =>
    List.mem_map_of_mem (by simpa using hc)
  have hcompare : ∀ c ∈ revisedNames m ++ [], ∀ c' ∈ revisedNames m ++ [],
      (VersionText.compare c.version c'.version).isSome = true := by
    intro c hc c' hc'
    obtain ⟨k, -, rfl⟩ := List.mem_map.mp (List.append_nil _ ▸ hc)
    obtain ⟨k', -, rfl⟩ := List.mem_map.mp (List.append_nil _ ▸ hc')
    exact revised_compare k k'
  obtain ⟨⟨p, n⟩, hr⟩ :=
    readFiles_some (revised_readable (List.range m)) indexed_init (revised_few m) hall hcompare 0
  exact ⟨(p, n), readCategories_one (by decide) hr⟩

theorem revised_nodup {m : Nat} (h : m ≤ 2 ^ 32) : ((revisedNames m).map CacheName.path).Nodup := by
  rw [revisedNames, List.map_map]
  refine List.Nodup.map_on (fun k hk k' hk' he => ?_) List.nodup_range
  exact revised_path_inj ((List.mem_range.mp hk).trans_le h) ((List.mem_range.mp hk').trans_le h) he

/-- One package for each key, with the files of the key, each once, and the number of
files in 32 bits. -/
theorem initializeRepository_indexes {entries : List CategoryEntry} {names : List CacheName}
    {p : Portage} {n : Nat} (hlists : Lists entries names) (hfew : FewCollisions (names.map CacheName.key))
    (h : readCategories Portage.init 0 entries = some (.ok (p, n))) :
    (p.objects.map Package.key).Nodup ∧
      (∀ key, key ∈ p.objects.map Package.key ↔ key ∈ names.map CacheName.key) ∧
      (∀ pkg ∈ p.objects, (pkg.ebuilds.map Ebuild.origin).Perm
          ((names.filter (·.key = pkg.key)).map CacheName.origin) ∧
        p.deref (lutGet p.packages (lutGetId p.packages pkg.key).1) = some pkg) ∧
      n = names.length % 2 ^ 32 := by
  obtain ⟨listed, hnamed, hperm⟩ := hlists
  obtain ⟨hread, hn⟩ := readCategories_ok (by decide) h
  have hindexed : Indexed p p.made (listed.reverse.map CacheName.key) listed.reverse := by
    have hall : ∀ c ∈ listed ++ [], c.key ∈ names.map CacheName.key := fun c hc =>
      List.mem_map_of_mem (hperm.subset (by simpa using hc))
    rw [← List.append_nil listed.reverse]
    exact hread.indexed hnamed indexed_init hfew hall
  have hperm' : listed.reverse.Perm names := (List.reverse_perm listed).trans hperm
  refine ⟨hindexed.objects_nodup, fun key => ?_, fun pkg hpkg => ⟨?_, ?_⟩, ?_⟩
  · rw [← (hperm'.map CacheName.key).mem_iff, ← hindexed.filed]
    constructor
    · intro hkey
      obtain ⟨pkg, hpkg, rfl⟩ := List.mem_map.mp hkey
      obtain ⟨a, ha⟩ := deref_of_mem hpkg
      obtain ⟨i, hi⟩ := hindexed.registered a pkg ha
      simp [hi]
    · intro hkey
      obtain ⟨⟨i, d⟩, hi⟩ := Option.ne_none_iff_exists'.mp hkey
      obtain ⟨pkg, hpkg, rfl⟩ := hindexed.inv.filed key i d hi
      exact List.mem_map_of_mem (deref_mem hpkg)
  · obtain ⟨a, ha⟩ := deref_of_mem hpkg
    exact (hindexed.ebuilds a pkg ha).trans ((hperm'.filter _).map _)
  · obtain ⟨a, ha⟩ := deref_of_mem hpkg
    obtain ⟨i, hi⟩ := hindexed.registered a pkg ha
    obtain ⟨hid, hget, -⟩ := hindexed.inv.valid.found hi
    rw [hid, hget]
    exact ha
  · rw [hn, Nat.zero_add, hnamed.length_eq, hperm.length_eq]

theorem initializeRepository_indexes_two : ∃ p, readCategories Portage.init 0 (revisedEntries 2) =
    some (.ok (p, 2)) ∧ (p.objects.map Package.key).Nodup ∧ (revised 1).key ∈ p.objects.map Package.key := by
  obtain ⟨⟨p, n⟩, hread⟩ := revised_read 2
  obtain ⟨hnodup, hkeys, -, hn⟩ :=
    initializeRepository_indexes (revised_lists 2) (revised_few 2) hread
  rw [revisedNames, List.length_map, List.length_range] at hn
  rw [show n = 2 from hn] at hread
  refine ⟨p, hread, hnodup, (hkeys _).mpr ?_⟩
  exact List.mem_map_of_mem (List.mem_map_of_mem (by decide))

/-- The count of `2 ^ 32` files is 0. -/
theorem count_wraps : ¬ ∀ (entries : List CategoryEntry) (names : List CacheName) (p : Portage) (n : Nat),
    (names.map CacheName.path).Nodup → Lists entries names → FewCollisions (names.map CacheName.key) →
      readCategories Portage.init 0 entries = some (.ok (p, n)) → n = names.length := by
  intro hall
  obtain ⟨m, hm⟩ : ∃ m, m = 2 ^ 32 := ⟨_, rfl⟩
  obtain ⟨⟨p, n⟩, hread⟩ := revised_read m
  have hn := hall _ _ p n (revised_nodup hm.le) (revised_lists m) (revised_few m) hread
  obtain ⟨-, hmod⟩ := readCategories_ok (by decide) hread
  rw [revised_repoFiles, List.length_map, List.length_map, List.length_range] at hmod
  rw [revisedNames, List.length_map, List.length_range] at hn
  omega

end AutoGentoo
