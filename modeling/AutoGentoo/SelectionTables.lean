import AutoGentoo.RegenerateClean
import AutoGentoo.RegenerateEnds

/-! The tables of selected ebuilds along a resolution: an object keeps the place it is
filed at. -/

namespace AutoGentoo

open StateExcept Emerge

namespace Emerge

/-- Every object stands in one place of the tables, and every table has the key of its
package. -/
structure Tabled (s : Emerge) : Prop where
  filed : s.Filed
  placed : ∀ sel < s.selected.length, ∃ key slot, s.entry key slot = some sel
  alone : ∀ key slot key' slot' sel, s.entry key slot = some sel → s.entry key' slot' = some sel →
    key = key' ∧ slot = slot'
  named : ∀ key pkg, Dict.get s.selectedPackages key = some pkg → pkg.key = key

/-- What is in the tables stays there. -/
def KeepsEntries (s t : Emerge) : Prop :=
  ∀ key slot sel, s.entry key slot = some sel → t.entry key slot = some sel

/-- The tables and the number of objects are the same. -/
theorem Tabled.congr {s t : Emerge} (hs : s.Tabled) (htables : t.selectedPackages = s.selectedPackages)
    (hlength : t.selected.length = s.selected.length) : t.Tabled ∧ s.KeepsEntries t := by
  have hentry : ∀ key slot, t.entry key slot = s.entry key slot := fun key slot => by
    rw [entry, entry, htables]
  refine ⟨⟨fun key slot sel h => ?_, fun sel hlt => ?_, fun key slot key' slot' sel h h' => ?_, ?_⟩,
    fun key slot sel h => (hentry key slot).trans h⟩
  · rw [hentry] at h
    exact hlength ▸ hs.filed key slot sel h
  · obtain ⟨key, slot, h⟩ := hs.placed sel (hlength ▸ hlt)
    exact ⟨key, slot, (hentry key slot).trans h⟩
  · rw [hentry] at h h'
    exact hs.alone key slot key' slot' sel h h'
  · rw [htables]
    exact hs.named

/-- A new object gets a place that was free. -/
theorem Tabled.create {s : Emerge} (hs : s.Tabled) {key : List Char} {pkg : InstallPackage}
    (parent : Option Nat) (atom : Atom) {ebuild : Ebuild} (hkey : pkg.key = key)
    (hsame : ∀ slot, Dict.get pkg.selectedEbuildSlots slot = s.entry key slot)
    (hfree : s.entry key (s.slot ebuild) = none) :
    (s.created key pkg parent atom ebuild).Tabled ∧ s.KeepsEntries (s.created key pkg parent atom ebuild) := by
  have hentry : ∀ key' slot, (s.created key pkg parent atom ebuild).entry key' slot =
      if key = key' ∧ s.slot ebuild = slot then some s.selected.length else s.entry key' slot := by
    intro key' slot
    rw [entry_created]
    by_cases h : key = key'
    · subst h
      by_cases hslot : s.slot ebuild = slot
      · simp [hslot]
      · simp [hslot, hsame]
    · simp [h]
  have hlength : (s.created key pkg parent atom ebuild).selected.length = s.selected.length + 1 :=
    List.length_append
  have hold : ∀ key' slot sel, s.entry key' slot = some sel →
      (s.created key pkg parent atom ebuild).entry key' slot = some sel := by
    intro key' slot sel h
    have hne : ¬ (key = key' ∧ s.slot ebuild = slot) := by
      rintro ⟨rfl, rfl⟩
      exact absurd (hfree.symm.trans h) (by simp)
    rw [hentry, if_neg hne, h]
  have hcases : ∀ key' slot sel, (s.created key pkg parent atom ebuild).entry key' slot = some sel →
      (key' = key ∧ slot = s.slot ebuild ∧ sel = s.selected.length) ∨
        (s.entry key' slot = some sel ∧ sel < s.selected.length) := by
    intro key' slot sel h
    rw [hentry] at h
    split_ifs at h with hnew
    · exact .inl ⟨hnew.1.symm, hnew.2.symm, (Option.some.inj h).symm⟩
    · exact .inr ⟨h, hs.filed key' slot sel h⟩
  refine ⟨⟨fun key' slot sel h => ?_, fun sel hlt => ?_, fun key₁ slot₁ key₂ slot₂ sel h₁ h₂ => ?_,
    fun key' pkg' h => ?_⟩, hold⟩
  · rw [hlength]
    rcases hcases key' slot sel h with ⟨-, -, rfl⟩ | ⟨-, hlt⟩
    · exact Nat.lt_succ_self _
    · exact Nat.lt_succ_of_lt hlt
  · rw [hlength] at hlt
    rcases Nat.lt_succ_iff_lt_or_eq.mp hlt with hlt | rfl
    · obtain ⟨key', slot, h⟩ := hs.placed sel hlt
      exact ⟨key', slot, hold key' slot sel h⟩
    · exact ⟨key, s.slot ebuild, by rw [hentry, if_pos ⟨rfl, rfl⟩]⟩
  · rcases hcases key₁ slot₁ sel h₁ with ⟨rfl, rfl, rfl⟩ | ⟨h₁, hlt₁⟩
    · rcases hcases key₂ slot₂ _ h₂ with ⟨rfl, rfl, -⟩ | ⟨-, hlt₂⟩
      · exact ⟨rfl, rfl⟩
      · exact absurd hlt₂ (Nat.lt_irrefl _)
    · rcases hcases key₂ slot₂ sel h₂ with ⟨-, -, rfl⟩ | ⟨h₂, -⟩
      · exact absurd hlt₁ (Nat.lt_irrefl _)
      · exact hs.alone key₁ slot₁ key₂ slot₂ sel h₁ h₂
  · rw [created, Dict.get_set] at h
    split_ifs at h with he
    · rw [← Option.some.inj h, ← he]
      exact hkey
    · exact hs.named key' pkg' h

/-- Where the ebuild found for the atom is of its own package. -/
theorem Tabled.select {s t : Emerge} (hs : s.Tabled) {parent : Option Nat} {atom : Atom}
    (hown : s.OwnMatch atom) (h : SelectEffect s parent atom t) : t.Tabled ∧ s.KeepsEntries t := by
  cases h with
  | same => exact ⟨hs, fun _ _ _ h => h⟩
  | @first ebuild hfound hnone =>
    rw [hown ebuild hfound] at hnone
    have hempty : ∀ slot, s.entry atom.key slot = none := fun slot => by
      rw [entry, hnone, Option.bind_none]
    exact hs.create parent atom rfl (fun slot => (hempty slot).symm) (hempty _)
  | @slot ebuild pkg slot hfound hpkg hslot hfree =>
    have hsame : ∀ slot, Dict.get pkg.selectedEbuildSlots slot = s.entry ebuild.packageKey slot :=
      fun slot => by rw [entry, hpkg, Option.bind_some]
    refine hs.create parent atom (hs.named _ _ hpkg) hsame ?_
    rw [← hsame, hslot, hfree]
  | changed => exact hs.congr rfl (List.length_set ..)

/-- With the repository and the files of `o`, the tables grow. -/
def TablesGrow (o s t : Emerge) : Prop := s.portage = o.portage → s.cache = o.cache →
  t.portage = o.portage ∧ t.cache = o.cache ∧ (s.Tabled → t.Tabled ∧ s.KeepsEntries t)

theorem OwnMatches.asked {o s : Emerge} (hown : o.OwnMatches) (hc : s.cache = o.cache) {ebuild : Ebuild}
    {i : Fin 4} {atom : Atom} (h : atom ∈ ((s.metadata ebuild).depTypes i).topAtoms) : o.OwnMatch atom := by
  rw [metadata] at h
  split_ifs at h with hread
  · rw [hc] at h
    exact hown ebuild.addr i atom h
  · have hblank : Metadata.blank.depTypes i = .null := by fin_cases i <;> rfl
    rw [hblank] at h
    exact absurd h (by simp [DependTree.topAtoms])

theorem SameButUse.selectedPackages {s t : Emerge} (h : SameButUse s t) :
    t.selectedPackages = s.selectedPackages ∧ t.selected.length = s.selected.length := by
  have hsettled : s.settled.selectedPackages = t.settled.selectedPackages ∧
      s.settled.selected.length = t.settled.selected.length := by
    rw [h]
    exact ⟨rfl, rfl⟩
  obtain ⟨htables, hlength⟩ := hsettled
  simp only [settled, List.length_map] at hlength
  exact ⟨htables.symm, hlength.symm⟩

end Emerge

theorem tables_frame {o : Emerge} (hown : o.OwnMatches) (loop : ForLoop) :
    Frame (selectAtomOver loop) (fun _ => True) o.OwnMatch (TablesGrow o) where
  trans s t r h h' hp hc := by
    obtain ⟨hp', hc', hgrow⟩ := h hp hc
    obtain ⟨hp'', hc'', hgrow'⟩ := h' hp' hc'
    refine ⟨hp'', hc'', fun hs => ?_⟩
    obtain ⟨ht, hkeeps⟩ := hgrow hs
    obtain ⟨hr, hkeeps'⟩ := hgrow' ht
    exact ⟨hr, fun key slot sel h => hkeeps' key slot sel (hkeeps key slot sel h)⟩
  use s t h hp hc := by
    obtain ⟨hp', hc', -⟩ := (shrinks_frame hown loop).use s t h hp hc
    obtain ⟨htables, hlength⟩ := h.selectedPackages
    exact ⟨hp', hc', fun hs => hs.congr htables hlength⟩
  deps sel _ f _ s hp hc := ⟨hp, hc, fun hs => hs.congr rfl (List.length_modify ..)⟩
  session sel s _ _ hp hc := ⟨hp, hc, fun hs => hs.congr rfl rfl⟩
  skip sel s t h _ := absurd trivial h
  select parent atom hasks s hp hc := by
    rcases ofCall_state (selectAtomOver loop parent atom) s with he | ⟨a, t, h, he⟩
    · rw [he]
      exact ⟨hp, hc, fun hs => hs.congr rfl rfl⟩
    · have heff := selectAtomOver_effect h
      rw [he]
      refine ⟨heff.tables.1.trans hp, heff.tables.2.trans hc, fun hs => hs.select ?_ heff⟩
      rw [OwnMatch, hp]
      exact hasks
  files s ebuild := by
    by_cases hc : s.cache = o.cache
    · exact .inl fun i atom hatom => hown.asked hc hatom
    · exact .inr fun t _ hc' => absurd hc' hc
  load ebuild s hp hc := ⟨hp, hc, fun hs => hs.congr rfl rfl⟩

/-- The atom a call selects for. -/
def EmergeCall.Asks (call : EmergeCall) (atom : Atom) : Prop :=
  ∃ parent, call = .selectAtom parent atom

theorem EmergeCall.tablesGrow {o : Emerge} (hown : o.OwnMatches) (loop : ForLoop) (call : EmergeCall)
    (hasks : ∀ atom, call.Asks atom → o.OwnMatch atom) (s : Emerge) : TablesGrow o s (call.step loop s) := by
  have hframe := tables_frame hown loop
  have hregenerate (fuel sel : Nat) : Respects _ (AutoGentoo.regenerate (selectAtomOver loop) fuel sel) :=
    hframe.regenerate fuel trivial
  cases call with
  | addBlock atom => exact fun hp hc => ⟨hp, hc, fun hs => hs.congr rfl rfl⟩
  | selectAtom parent atom =>
    have hatom : o.OwnMatch atom := hasks atom ⟨parent, rfl⟩
    exact hframe.bind (hframe.select parent atom hatom) (fun _ => hframe.pure ()) s
  | changeWithinSlot sel atom =>
    refine hframe.bind (fun s hp hc => ?_) (fun _ => hframe.pure ()) s
    rcases ofCall_state (changeWithinSlotOver loop sel atom) s with he | ⟨a, t, h, he⟩
    · rw [he]
      exact ⟨hp, hc, fun hs => hs.congr rfl rfl⟩
    · rw [he]
      rcases changeWithinSlotOver_ok h with rfl | ⟨selected, candidate, -, rfl⟩
      · exact ⟨hp, hc, fun hs => hs.congr rfl rfl⟩
      · exact ⟨hp, hc, fun hs => hs.congr rfl (List.length_set ..)⟩
  | regenerate fuel sel => exact hregenerate fuel sel s
  | getResolved fuel sel => exact hframe.getResolved (fun z _ => hregenerate fuel z) sel s

theorem EmergeCall.run_tablesGrow {o : Emerge} (hown : o.OwnMatches) (loop : ForLoop)
    (calls : List EmergeCall) (hasks : ∀ call ∈ calls, ∀ atom, call.Asks atom → o.OwnMatch atom) (s : Emerge) :
    TablesGrow o s (calls.foldl (EmergeCall.step loop) s) := by
  induction calls generalizing s with
  | nil => exact fun hp hc => ⟨hp, hc, fun hs => hs.congr rfl rfl⟩
  | cons call calls ih =>
    have hfirst := call.tablesGrow hown loop (hasks call List.mem_cons_self) s
    have hrest := ih (fun call hcall => hasks call (List.mem_cons_of_mem _ hcall)) (call.step loop s)
    exact (tables_frame hown loop).trans _ _ _ hfirst hrest

/-- After any calls, raising ones included, each SelectedEbuild stands at one slot of one
package, and it stays there whatever is called afterwards: `match_atom` finds it again, and
no other is made for the slot. -/
theorem entries_kept (loop : ForLoop) (portage : Portage) (globals : UseHeap) (cache : Nat → CacheFile)
    (read : List Nat) (hown : (Emerge.init portage globals cache read).OwnMatches)
    (calls more : List EmergeCall) (hasks : ∀ call ∈ calls ++ more, ∀ atom, call.Asks atom →
      (Emerge.init portage globals cache read).OwnMatch atom) :
    let s := calls.foldl (EmergeCall.step loop) (Emerge.init portage globals cache read)
    s.Tabled ∧ s.KeepsEntries (more.foldl (EmergeCall.step loop) s) := by
  intro s
  have hinit : (Emerge.init portage globals cache read).Tabled := by
    have hnone : ∀ key slot, (Emerge.init portage globals cache read).entry key slot = none := fun _ _ => rfl
    refine ⟨fun key slot sel h => ?_, fun sel hlt => absurd hlt (Nat.not_lt_zero sel),
      fun key slot key' slot' sel h => ?_, fun key pkg h => absurd h (by simp [Emerge.init])⟩
    · exact absurd ((hnone key slot).symm.trans h) (by simp)
    · exact absurd ((hnone key slot).symm.trans h) (by simp)
  obtain ⟨hp, hc, hgrow⟩ := EmergeCall.run_tablesGrow hown loop calls
    (fun call hcall => hasks call (List.mem_append_left _ hcall)) _ rfl rfl
  obtain ⟨-, -, hkeeps⟩ := EmergeCall.run_tablesGrow hown loop more
    (fun call hcall => hasks call (List.mem_append_right _ hcall)) s hp hc
  exact ⟨(hgrow hinit).1, (hkeeps (hgrow hinit).1).2⟩

theorem entries_kept_mutual : ∃ s,
    s = [EmergeCall.selectAtom none (pairAtom "bar" []), .getResolved 3 0].foldl (EmergeCall.step search)
        (mutualSession []) ∧ s.selected.length = 2 ∧ s.Tabled ∧
      s.KeepsEntries ([EmergeCall.selectAtom (some 0) (pairAtom "foo" []), .changeWithinSlot 1 (pairAtom "bar" []),
        .regenerate 3 1].foldl (EmergeCall.step search) s) := by
  have hlength : ([EmergeCall.selectAtom none (pairAtom "bar" []), .getResolved 3 0].foldl (EmergeCall.step search)
      (mutualSession [])).selected.length = 2 := by
    decide +kernel
  have hmatch : ∀ atom ∈ mutualRequests [], (mutualSession []).OwnMatch atom := by
    intro atom hatom ebuild h
    rw [mutualSession_portage] at h
    obtain ⟨ebuild', h', hkey, -⟩ := mutual_found [] List.mem_cons_self atom hatom atom hatom rfl
    obtain rfl := Option.some.inj (Except.ok.inj (Option.some.inj (h'.symm.trans h)))
    exact hkey
  have hown : (mutualSession []).OwnMatches := fun addr i atom hatom => hmatch atom (mutual_asks hatom)
  refine ⟨_, rfl, hlength, entries_kept search _ _ _ _ hown _ _ fun call hcall atom hatom => hmatch atom ?_⟩
  cases call with
  | selectAtom parent other =>
    obtain ⟨parent', hcall'⟩ := hatom
    obtain ⟨-, rfl⟩ := EmergeCall.selectAtom.inj hcall'
    have hasked : other = pairAtom "bar" [] ∨ other = pairAtom "foo" [] := by
      simp at hcall
      exact hcall.imp And.right And.right
    rcases hasked with rfl | rfl
    · exact List.mem_cons_self
    · exact List.mem_cons_of_mem _ List.mem_cons_self
  | addBlock | changeWithinSlot | regenerate | getResolved =>
    obtain ⟨parent', hcall'⟩ := hatom
    exact absurd hcall' (by simp)

end AutoGentoo
