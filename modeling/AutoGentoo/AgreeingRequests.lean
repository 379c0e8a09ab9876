import AutoGentoo.RegenerateEnds

/-! Requests that agree: whichever of them comes first, the ebuild selected for a package
suits all of them. A package then has one object, which keeps its ebuild. -/

namespace AutoGentoo

open StateExcept

namespace Emerge

/-- The cache files ask for no other atoms, and the atoms of one package accept the ebuild
that is found for any of them. -/
structure Agreeing (o : Emerge) (asks : Atom → Prop) : Prop where
  files : ∀ addr i, ∀ atom ∈ ((o.cache addr).fields.depTypes i).topAtoms, asks atom
  own : ∀ atom, asks atom → o.OwnMatch atom
  accepts : ∀ a b ebuild, asks a → asks b → a.key = b.key →
    o.portage.matchAtom a = some (.ok (some ebuild)) → atomMatches b ebuild = some true

/-- The table of the package has this object alone, with an ebuild found for an atom of the
package. -/
def AloneAt (s o : Emerge) (asks : Atom → Prop) (key : List Char) (x : Nat) : Prop :=
  ∃ (a : SelectedEbuild) (atom : Atom) (slot : Option (List Char)), s.selected[x]? = some a ∧ asks atom ∧ atom.key = key ∧
    o.portage.matchAtom atom = some (.ok (some a.ebuild)) ∧
    Dict.get s.selectedPackages key = some { key := key, selectedEbuildSlots := [(slot, x)] }

/-- With the repository and the files of `o`, one object for each package selected. -/
structure Lone (s o : Emerge) (asks : Atom → Prop) : Prop where
  portage : s.portage = o.portage
  cache : s.cache = o.cache
  objects : ∀ x < s.selected.length, ∃ key, s.AloneAt o asks key x
  packages : ∀ key pkg, Dict.get s.selectedPackages key = some pkg → ∃ x, s.AloneAt o asks key x

/-- The objects are still there, with the ebuilds they had. -/
def KeepsEbuilds (s t : Emerge) : Prop := ∀ (x : Nat) (a : SelectedEbuild), s.selected[x]? = some a →
  ∃ b : SelectedEbuild, t.selected[x]? = some b ∧ b.ebuild = a.ebuild

theorem KeepsEbuilds.refl (s : Emerge) : s.KeepsEbuilds s := fun _ a ha => ⟨a, ha, rfl⟩

variable {o s t r : Emerge} {asks : Atom → Prop}

theorem KeepsEbuilds.trans (h : s.KeepsEbuilds t) (h' : t.KeepsEbuilds r) : s.KeepsEbuilds r := by
  intro x a ha
  obtain ⟨b, hb, hab⟩ := h x a ha
  obtain ⟨c, hc, hbc⟩ := h' x b hb
  exact ⟨c, hc, hbc.trans hab⟩

theorem AloneAt.keeps {key : List Char} {x : Nat} (h : s.AloneAt o asks key x) (hkeeps : s.KeepsEbuilds t)
    (htables : Dict.get t.selectedPackages key = Dict.get s.selectedPackages key) : t.AloneAt o asks key x := by
  obtain ⟨a, atom, slot, ha, hasks, hkey, hfound, hget⟩ := h
  obtain ⟨b, hb, he⟩ := hkeeps x a ha
  exact ⟨b, atom, slot, hb, hasks, hkey, by rw [he, hfound], htables.trans hget⟩

theorem Lone.congr (hs : s.Lone o asks) (hportage : t.portage = s.portage) (hcache : t.cache = s.cache)
    (htables : t.selectedPackages = s.selectedPackages) (hlength : t.selected.length = s.selected.length)
    (hkeeps : s.KeepsEbuilds t) : t.Lone o asks where
  portage := hportage.trans hs.portage
  cache := hcache.trans hs.cache
  objects x hx := by
    obtain ⟨key, hkey⟩ := hs.objects x (hlength ▸ hx)
    exact ⟨key, hkey.keeps hkeeps (by rw [htables])⟩
  packages key pkg hpkg := by
    rw [htables] at hpkg
    obtain ⟨x, hx⟩ := hs.packages key pkg hpkg
    exact ⟨x, hx.keeps hkeeps (by rw [htables])⟩

/-- The objects are of different packages. -/
theorem Lone.packageKey_inj (ho : o.Agreeing asks) (hs : s.Lone o asks) {x y : Nat} {a b : SelectedEbuild}
    (ha : s.selected[x]? = some a) (hb : s.selected[y]? = some b)
    (hkey : a.ebuild.packageKey = b.ebuild.packageKey) : x = y := by
  have hplaced : ∀ z c, s.selected[z]? = some c → ∃ slot, Dict.get s.selectedPackages c.ebuild.packageKey =
      some { key := c.ebuild.packageKey, selectedEbuildSlots := [(slot, z)] } := by
    intro z c hc
    obtain ⟨key, c', atom, slot, hc', hasks, rfl, hfound, hget⟩ :=
      hs.objects z (List.getElem?_eq_some_iff.mp hc).1
    obtain rfl := Option.some.inj (hc.symm.trans hc')
    rw [ho.own atom hasks _ hfound]
    exact ⟨slot, hget⟩
  obtain ⟨slot, hx⟩ := hplaced x a ha
  obtain ⟨slot', hy⟩ := hplaced y b hb
  rw [hkey, hy] at hx
  injection hx with hpkg
  injection hpkg with _ hslots
  injection hslots with hpair
  exact (Prod.mk.inj hpair).2.symm

theorem firstMatch_hit {slots : Dict (Option (List Char)) Nat} {slot : Option (List Char)} {x : Nat}
    {a : SelectedEbuild} {atom : Atom} (ha : s.selected[x]? = some a)
    (hmatch : atomMatches atom a.ebuild = some true) :
    InstallPackage.firstMatch s atom ((slot, x) :: slots) = .ok (some x) := by
  rw [InstallPackage.firstMatch, ha]
  simp only [matchesEbuild, hmatch]
  rfl

theorem created_keeps (s : Emerge) (key : List Char) (pkg : InstallPackage) (parent : Option Nat)
    (atom : Atom) (ebuild : Ebuild) : s.KeepsEbuilds (s.created key pkg parent atom ebuild) := fun _ a ha =>
  ⟨a, (List.getElem?_append_left (List.getElem?_eq_some_iff.mp ha).1).trans ha, rfl⟩

/-- The state after the first request for a package. -/
def opensPackage (s : Emerge) (parent : Option Nat) (atom : Atom) (ebuild : Ebuild) : Emerge :=
  s.created atom.key { key := atom.key, selectedEbuildSlots := [] } parent atom ebuild

theorem opensPackage_new (s : Emerge) (parent : Option Nat) (atom : Atom) (ebuild : Ebuild) :
    (s.opensPackage parent atom ebuild).selected[s.selected.length]? =
      some (SelectedEbuild.init parent atom ebuild) :=
  List.getElem?_concat_length

theorem Lone.opens (hs : s.Lone o asks) {parent : Option Nat} {atom : Atom} {ebuild : Ebuild} (hatom : asks atom)
    (hfound : o.portage.matchAtom atom = some (.ok (some ebuild)))
    (hnone : Dict.get s.selectedPackages atom.key = none) : (s.opensPackage parent atom ebuild).Lone o asks := by
  have hget : ∀ key, Dict.get (s.opensPackage parent atom ebuild).selectedPackages key =
      if atom.key = key then
        some { key := atom.key, selectedEbuildSlots := [(s.slot ebuild, s.selected.length)] }
      else Dict.get s.selectedPackages key := fun key => Dict.get_set ..
  have hnew : (s.opensPackage parent atom ebuild).AloneAt o asks atom.key s.selected.length :=
    ⟨_, atom, s.slot ebuild, opensPackage_new s parent atom ebuild, hatom, rfl, hfound,
      by rw [hget, if_pos rfl]⟩
  have hold : ∀ key x, s.AloneAt o asks key x → (s.opensPackage parent atom ebuild).AloneAt o asks key x := by
    intro key x hx
    refine hx.keeps (created_keeps s _ _ _ _ _) ?_
    obtain ⟨_, _, _, -, -, -, -, hthere⟩ := hx
    rw [hget, if_neg]
    rintro rfl
    exact absurd (hnone.symm.trans hthere) (by simp)
  refine ⟨hs.portage, hs.cache, fun x hx => ?_, fun key pkg hpkg => ?_⟩
  · have hlength : (s.opensPackage parent atom ebuild).selected.length = s.selected.length + 1 :=
      List.length_append
    rw [hlength] at hx
    rcases Nat.lt_succ_iff_lt_or_eq.mp hx with hx | rfl
    · obtain ⟨key, hkey⟩ := hs.objects x hx
      exact ⟨key, hold key x hkey⟩
    · exact ⟨atom.key, hnew⟩
  · rw [hget] at hpkg
    split_ifs at hpkg with hkey
    · exact ⟨s.selected.length, hkey ▸ hnew⟩
    · obtain ⟨x, hx⟩ := hs.packages key pkg hpkg
      exact ⟨x, hold key x hx⟩

/-- `select_atom` gives the object of the package, or makes it. -/
theorem Lone.select (ho : o.Agreeing asks) (hs : s.Lone o asks) {atom : Atom} (hatom : asks atom)
    {ebuild : Ebuild} (hfound : o.portage.matchAtom atom = some (.ok (some ebuild))) (loop : ForLoop)
    (parent : Option Nat) : ∃ x t b, selectAtomOver loop parent atom s = .ok (some x, t) ∧
      t.selected[x]? = some b ∧ b.ebuild.packageKey = atom.key ∧ atomMatches atom b.ebuild = some true ∧
      t.Lone o asks ∧ (t = s ∨ t = s.opensPackage parent atom ebuild) := by
  have hkey := ho.own atom hatom ebuild hfound
  rw [selectAtomOver, hs.portage, hfound]
  simp only [hkey]
  cases hget : Dict.get s.selectedPackages atom.key with
  | some pkg =>
    obtain ⟨x, a, other, slot, ha, hasks, hother, hmatch, hpkg⟩ := hs.packages atom.key pkg hget
    obtain rfl := Option.some.inj (hget.symm.trans hpkg)
    have haccepts := ho.accepts other atom _ hasks hatom hother hmatch
    have hown := (ho.own other hasks _ hmatch).trans hother
    refine ⟨x, s, a, ?_, ha, hown, haccepts, hs, .inl rfl⟩
    simp only [InstallPackage.matchAtomOver, firstMatch_hit ha haccepts, Except.bind]
  | none =>
    exact ⟨s.selected.length, s.opensPackage parent atom ebuild, _, rfl, opensPackage_new s parent atom ebuild,
      hkey, ho.accepts atom atom ebuild hatom hatom rfl hfound, hs.opens hatom hfound hget, .inr rfl⟩

theorem selectAtom_found {loop : ForLoop} {parent : Option Nat} {atom : Atom} {found : Option Nat}
    (h : selectAtomOver loop parent atom s = .ok (found, t)) :
    ∃ ebuild, s.portage.matchAtom atom = some (.ok (some ebuild)) := by
  rw [selectAtomOver] at h
  split at h
  · exact absurd h (by simp)
  · exact absurd h (by simp)
  · exact absurd h (by simp)
  · next ebuild hfound => exact ⟨ebuild, hfound⟩

theorem Lone.selected (ho : o.Agreeing asks) (hs : s.Lone o asks) {atom : Atom} (hatom : asks atom)
    {loop : ForLoop} {parent found : Option Nat} (h : selectAtomOver loop parent atom s = .ok (found, t)) :
    ∃ x b, found = some x ∧ t.selected[x]? = some b ∧ b.ebuild.packageKey = atom.key ∧
      atomMatches atom b.ebuild = some true ∧ t.Lone o asks ∧ (t = s ∨ ∃ ebuild, t = s.opensPackage parent atom ebuild) := by
  obtain ⟨ebuild, hfound⟩ := selectAtom_found h
  rw [hs.portage] at hfound
  obtain ⟨x, u, b, hok, hb, hkey, hmatch, hlone, hcases⟩ := hs.select ho hatom hfound loop parent
  obtain ⟨rfl, rfl⟩ := Prod.mk.inj (Except.ok.inj (h.symm.trans hok))
  exact ⟨x, b, rfl, hb, hkey, hmatch, hlone, hcases.imp_right fun he => ⟨ebuild, he⟩⟩

/-- One object for each package, before and after, and with the same ebuilds. -/
def StaysLone (o : Emerge) (asks : Atom → Prop) (s t : Emerge) : Prop :=
  s.Lone o asks → t.Lone o asks ∧ s.KeepsEbuilds t

theorem modifySel_keeps (sel : Nat) {f : SelectedEbuild → SelectedEbuild} (hf : ∀ a, (f a).ebuild = a.ebuild)
    (s : Emerge) : s.KeepsEbuilds (modifySel sel f s).2 := by
  intro x a ha
  by_cases hx : sel = x
  · subst hx
    exact ⟨f a, by rw [modifySel_self, ha]; rfl, hf a⟩
  · exact ⟨a, by rw [modifySel_ne hx, ha], rfl⟩

theorem modifySel_staysLone (sel : Nat) {f : SelectedEbuild → SelectedEbuild}
    (hf : ∀ a, (f a).ebuild = a.ebuild) : Respects (StaysLone o asks) (modifySel sel f) := fun s hs =>
  ⟨hs.congr rfl rfl rfl (List.length_modify ..) (modifySel_keeps sel hf s), modifySel_keeps sel hf s⟩

theorem SameButUse.keepsEbuilds (h : SameButUse s t) : s.KeepsEbuilds t := by
  intro x a ha
  have hx : s.settled.selected[x]? = t.settled.selected[x]? := by rw [h]
  simp only [settled, List.getElem?_map, ha, Option.map_some] at hx
  obtain ⟨b, hb, he⟩ := Option.map_eq_some_iff.mp hx.symm
  have hebuild : b.settled.ebuild = a.settled.ebuild := by rw [he]
  exact ⟨b, hb, hebuild⟩

theorem SameButUse.staysLone (h : SameButUse s t) : StaysLone o asks s t := by
  intro hs
  have hsettled : s.settled.portage = t.settled.portage ∧ s.settled.cache = t.settled.cache ∧
      s.settled.selectedPackages = t.settled.selectedPackages ∧
      s.settled.selected.length = t.settled.selected.length := by
    rw [h]
    exact ⟨rfl, rfl, rfl, rfl⟩
  obtain ⟨hportage, hcache, htables, hlength⟩ := hsettled
  simp only [settled, List.length_map] at hlength
  exact ⟨hs.congr hportage.symm hcache.symm htables.symm hlength.symm h.keepsEbuilds, h.keepsEbuilds⟩

theorem staysLone_trans (s t r : Emerge) (h : StaysLone o asks s t) (h' : StaysLone o asks t r) :
    StaysLone o asks s r := by
  intro hs
  obtain ⟨ht, hst⟩ := h hs
  obtain ⟨hr, htr⟩ := h' ht
  exact ⟨hr, hst.trans htr⟩

theorem select_staysLone (ho : o.Agreeing asks) (loop : ForLoop) (parent : Option Nat) {atom : Atom}
    (hatom : asks atom) : Respects (StaysLone o asks) (ofCall (selectAtomOver loop parent atom)) := by
  intro s hs
  rcases ofCall_state (selectAtomOver loop parent atom) s with he | ⟨found, t, h, he⟩
  · rw [he]
    exact ⟨hs, .refl s⟩
  · rw [he]
    obtain ⟨x, b, -, -, -, -, ht, rfl | ⟨ebuild, rfl⟩⟩ := hs.selected ho hatom h
    · exact ⟨ht, .refl t⟩
    · exact ⟨ht, created_keeps s _ _ _ _ _⟩

theorem Agreeing.asked (ho : o.Agreeing asks) (hs : s.Lone o asks) {ebuild : Ebuild} {i : Fin 4} {atom : Atom}
    (h : atom ∈ ((s.metadata ebuild).depTypes i).topAtoms) : asks atom := by
  rw [metadata] at h
  split_ifs at h
  · rw [hs.cache] at h
    exact ho.files _ i atom h
  · have hblank : Metadata.blank.depTypes i = .null := by fin_cases i <;> rfl
    rw [hblank] at h
    exact absurd h (by simp [DependTree.topAtoms])

theorem lone_frame (ho : o.Agreeing asks) (loop : ForLoop) :
    Frame (selectAtomOver loop) (fun _ => True) asks (StaysLone o asks) where
  trans := staysLone_trans
  use _ _ h := h.staysLone
  deps sel _ f hf := modifySel_staysLone sel fun a => by
    have hebuild : (f a).bare.ebuild = a.bare.ebuild := by rw [hf a]
    exact hebuild
  session sel s _ _ hs := ⟨hs.congr rfl rfl rfl rfl (.refl s), .refl s⟩
  skip _ _ _ h := absurd trivial h
  select parent atom hatom := select_staysLone ho loop parent hatom
  files s ebuild := by
    by_cases hs : s.Lone o asks
    · exact .inl fun i atom hatom => ho.asked hs hatom
    · exact .inr fun t ht => absurd ht hs
  load ebuild s hs := ⟨hs.congr rfl rfl rfl rfl (.refl s), .refl s⟩

end Emerge

end AutoGentoo
