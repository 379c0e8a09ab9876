import AutoGentoo.AtomInit
import AutoGentoo.MetadataFraming

/-! What a failed `ebuild_metadata_init` leaves of the ebuild, and what the next call
makes of it. -/

namespace AutoGentoo

namespace MetadataTurn

/-- The ebuild and `error`, unless the turn crashed. -/
def fields : MetadataTurn → Option (EbuildFields × Nat)
  | next self error | stop self error => some (self, error)
  | crash => none

end MetadataTurn

/-- The code that is returned, with the ebuild; `none` for a crash. The file may not
open, and not close. -/
def ebuildMetadataInit (p : MetadataParsers) (file : Option (List Char)) (closes : Bool)
    (self : EbuildFields) : Option (Int × EbuildFields) :=
  match file with
  | none => some (-1, self)
  | some text =>
    ((readMetadataFile p text self).bind fun r => r.2.fields).map fun r =>
      (if closes then (r.2 : Int) else 4,
        if r.2 = 0 then { r.1 with metadataInit := true } else r.1)

/-- The pairs of a file, for so many turns. -/
def Stream.pairs : Nat → Stream → List (List Char × List Char)
  | 0, _ => []
  | n + 1, fp =>
    if fp.eof then []
    else
      match fp.readPair with
      | (none, _) => []
      | (some pair, fp) => pair :: pairs n fp

/-- The pairs up to a REQUIRED_USE that is refused. -/
def upToRefused (p : MetadataParsers) : List (List Char × List Char) → List (List Char × List Char)
  | [] => []
  | pair :: rest =>
    pair :: if pair.1 = "REQUIRED_USE".toList ∧ p.requiredUseParse pair.2 = .null then []
      else upToRefused p rest

/-- The lines that are processed. -/
def linesTaken (p : MetadataParsers) (text : List Char) : List (List Char × List Char) :=
  upToRefused p (Stream.pairs (text.length + 1) { rest := text, eof := false })

/-! What a line writes, field by field. -/

def slotWrite (pair : List Char × List Char) : Option (Option (List Char)) :=
  if pair.1 = "SLOT".toList then some (strtok pair.2 (· == '/')).head? else none

def subSlotWrite (pair : List Char × List Char) : Option (Option (List Char)) :=
  if pair.1 = "SLOT".toList then (strtok pair.2 (· == '/')).tail.head?.map some else none

def requiredUseWrite (p : MetadataParsers) (pair : List Char × List Char) : Option UseTree :=
  if pair.1 = "REQUIRED_USE".toList then some (p.requiredUseParse pair.2) else none

/-- What a token of KEYWORDS says of an architecture. -/
def keywordOf (arch : Arch) (tok : List Char) : Option Keyword :=
  let parts := keywordParts tok
  if parts.2 = "**".toList ∨ parts.2 = "*".toList ∨ keywordLinks parts.2 = some arch then some parts.1
  else none

def keywordWrite (arch : Arch) (pair : List Char × List Char) : Option Keyword :=
  if pair.1 = "KEYWORDS".toList then ((strtok pair.2 isKeywordDelim).filterMap (keywordOf arch)).getLast?
  else none

def iuseWrites (pair : List Char × List Char) : List UseFlag :=
  if pair.1 = "IUSE".toList then (strtok pair.2 (· == ' ')).map iuseFlag else []

/-- Nothing that is written last differs from what is there: of the dependencies the
first that is parsed counts, and the keywords are NONE where no line gives one. -/
structure LeavesAlone (p : MetadataParsers) (lines : List (List Char × List Char))
    (ebuild : EbuildFields) : Prop where
  depends : ∀ var, ebuild.metadata.target var = .null → ∀ pair ∈ lines,
    dependSetup pair.1 = some var → p.dependParse pair.2 = .null
  slot : ∀ slot ∈ (lines.filterMap slotWrite).getLast?, slot = ebuild.metadata.slot
  subSlot : ∀ subSlot ∈ (lines.filterMap subSlotWrite).getLast?, subSlot = ebuild.subSlot
  requiredUse : ∀ parsed ∈ (lines.filterMap (requiredUseWrite p)).getLast?,
    parsed = ebuild.metadata.requiredUse
  keywords : ∀ arch, (lines.filterMap (keywordWrite arch)).getLast?.getD .none = ebuild.keywords arch
  iuse : ∀ name, ∀ flag ∈ ((lines.flatMap iuseWrites).filter fun flag => flag.name = name).getLast?,
    Dict.get ebuild.metadata.iuse name = some flag

/-- The fields that reading metadata sets are the same. -/
structure SameFields (before after : EbuildFields) : Prop where
  metadata : after.metadata = before.metadata
  subSlot : after.subSlot = before.subSlot
  keywords : after.keywords = before.keywords

/-- The fields are as before, and on a new ebuild the next call that succeeds gives
what it gives on a new ebuild. -/
def Restored (p : MetadataParsers) (self other : EbuildFields) : Prop :=
  SameFields self other ∧ (self = .fresh → ∀ file closes after,
    ebuildMetadataInit p file closes .fresh = some (0, after) →
      ebuildMetadataInit p file closes other = some (0, after))

theorem foldl_writes {α β : Type} (w : α → Option β) (l : List α) (b : β) :
    l.foldl (fun b a => (w a).getD b) b = (l.filterMap w).getLast?.getD b := by
  induction l generalizing b with
  | nil => rfl
  | cons a l ih =>
    rw [List.foldl_cons, ih]
    cases hw : w a with
    | none => rw [List.filterMap_cons_none hw, Option.getD_none]
    | some b' => rw [List.filterMap_cons_some hw, List.getLast?_cons, Option.getD_some, Option.getD_some]

theorem getD_eq_self_iff {β : Type} {o : Option β} {b : β} : o.getD b = b ↔ ∀ x ∈ o, x = b := by
  cases o <;> simp

theorem keywordToken_apply (keywords : Arch → Keyword) (tok : List Char) (arch : Arch) :
    keywordToken keywords tok arch = (keywordOf arch tok).getD (keywords arch) := by
  simp only [keywordToken, keywordOf, ← or_assoc]
  by_cases hall : (keywordParts tok).2 = "**".toList ∨ (keywordParts tok).2 = "*".toList
  · rw [if_pos hall, if_pos (.inl hall)]
    rfl
  · rw [if_neg hall]
    by_cases hlink : keywordLinks (keywordParts tok).2 = some arch
    · rw [if_pos (.inr hlink), hlink]
      exact if_pos rfl
    · rw [if_neg (not_or.mpr ⟨hall, hlink⟩)]
      cases hother : keywordLinks (keywordParts tok).2 with
      | none => rfl
      | some other => exact if_neg fun he => hlink (hother.trans (congrArg some he.symm))

theorem ebuildKeywordInit_apply (keywords : Arch → Keyword) (line : List Char) (arch : Arch) :
    ebuildKeywordInit keywords line arch =
      ((strtok line isKeywordDelim).filterMap (keywordOf arch)).getLast?.getD (keywords arch) := by
  rw [ebuildKeywordInit, ← foldl_writes]
  generalize strtok line isKeywordDelim = tokens
  induction tokens generalizing keywords with
  | nil => rfl
  | cons tok tokens ih => rw [List.foldl_cons, List.foldl_cons, ih, keywordToken_apply]

section Turn

variable {p : MetadataParsers} {pair : List Char × List Char} {self t : EbuildFields} {error error' : Nat}

/-- A turn, field by field. -/
structure TurnWrites (p : MetadataParsers) (pair : List Char × List Char) (before after : EbuildFields) : Prop where
  target : ∀ var, after.metadata.target var =
    if before.metadata.target var = .null ∧ dependSetup pair.1 = some var then p.dependParse pair.2
    else before.metadata.target var
  slot : after.metadata.slot = (slotWrite pair).getD before.metadata.slot
  subSlot : after.subSlot = (subSlotWrite pair).getD before.subSlot
  requiredUse : after.metadata.requiredUse = (requiredUseWrite p pair).getD before.metadata.requiredUse
  keywords : ∀ arch, after.keywords arch = (keywordWrite arch pair).getD (before.keywords arch)
  iuse : after.metadata.iuse = Dict.setAll UseFlag.name before.metadata.iuse (iuseWrites pair)

theorem dependSetup_keywords : dependSetup "KEYWORDS".toList = none := by decide

theorem dependSetup_iuse : dependSetup "IUSE".toList = none := by decide

/-- A dependency writes no other field. -/
theorem turnWrites_depend {var : DependVar} (hd : dependSetup pair.1 = some var)
    {metadata : Metadata} (hsame : metadata = self.metadata.setTarget (metadata.target var) var)
    (htarget : metadata.target var = if self.metadata.target var = .null then p.dependParse pair.2
      else self.metadata.target var) :
    TurnWrites p pair self { self with metadata := metadata } := by
  have hne : ∀ key, dependSetup key = none → pair.1 ≠ key := by
    rintro key hkey rfl
    exact absurd (hd.symm.trans hkey) (Option.some_ne_none var)
  refine ⟨fun var' => ?_, ?_, ?_, ?_, fun arch => ?_, ?_⟩
  · dsimp only
    rw [hd]
    by_cases hvar : var = var'
    · subst hvar
      simpa using htarget
    · rw [if_neg (by simp [hvar]), hsame]
      cases var <;> cases var' <;> first | rfl | exact absurd rfl hvar
  · rw [slotWrite, if_neg (hne _ dependSetup_slot), Option.getD_none, hsame]
    cases var <;> rfl
  · rw [subSlotWrite, if_neg (hne _ dependSetup_slot), Option.getD_none]
  · rw [requiredUseWrite, if_neg (hne _ dependSetup_requiredUse), Option.getD_none, hsame]
    cases var <;> rfl
  · rw [keywordWrite, if_neg (hne _ dependSetup_keywords), Option.getD_none]
  · rw [iuseWrites, if_neg (hne _ dependSetup_iuse), hsame]
    cases var <;> rfl

theorem setTarget_self (self : Metadata) (var : DependVar) :
    self = self.setTarget (self.target var) var := by
  cases var <;> rfl

theorem target_setTarget (self : Metadata) (parsed : DependTree) (var : DependVar) :
    (self.setTarget parsed var).target var = parsed := by
  cases var <;> rfl

theorem setTarget_setTarget (self : Metadata) (a : DependTree) (var : DependVar) :
    self.setTarget a var = self.setTarget ((self.setTarget a var).target var) var := by
  rw [target_setTarget]

theorem turnWrites_other (hd : dependSetup pair.1 = none)
    (htarget : ∀ var, t.metadata.target var = self.metadata.target var)
    (hslot : t.metadata.slot = (slotWrite pair).getD self.metadata.slot)
    (hsub : t.subSlot = (subSlotWrite pair).getD self.subSlot)
    (hreq : t.metadata.requiredUse = (requiredUseWrite p pair).getD self.metadata.requiredUse)
    (hkey : ∀ arch, t.keywords arch = (keywordWrite arch pair).getD (self.keywords arch))
    (hiuse : t.metadata.iuse = Dict.setAll UseFlag.name self.metadata.iuse (iuseWrites pair)) :
    TurnWrites p pair self t := by
  refine ⟨fun var => ?_, hslot, hsub, hreq, hkey, hiuse⟩
  rw [if_neg (by simp [hd]), htarget]

theorem turnWrites_slot (hkey : pair.1 = "SLOT".toList) {tok : List Char} {rest : List (List Char)}
    (htok : strtok pair.2 (· == '/') = tok :: rest) :
    TurnWrites p pair self { self with
      metadata := { self.metadata with slot := some tok }, subSlot := rest.head?.or self.subSlot } := by
  apply turnWrites_other (by rw [hkey, dependSetup_slot]) (by rintro (_ | _ | _ | _) <;> rfl)
  · simp [slotWrite, hkey, htok]
  · cases rest <;> simp [subSlotWrite, hkey, htok]
  · simp [requiredUseWrite, hkey]
  · simp [keywordWrite, hkey]
  · simp [iuseWrites, hkey, Dict.setAll]

theorem turnWrites_requiredUse (hkey : pair.1 = "REQUIRED_USE".toList) :
    TurnWrites p pair self { self with
      metadata := { self.metadata with requiredUse := p.requiredUseParse pair.2 } } := by
  apply turnWrites_other (by rw [hkey, dependSetup_requiredUse]) (by rintro (_ | _ | _ | _) <;> rfl)
  · simp [slotWrite, hkey]
  · simp [subSlotWrite, hkey]
  · simp [requiredUseWrite, hkey]
  · simp [keywordWrite, hkey]
  · simp [iuseWrites, hkey, Dict.setAll]

theorem turnWrites_keywords (hkey : pair.1 = "KEYWORDS".toList) :
    TurnWrites p pair self { self with keywords := ebuildKeywordInit self.keywords pair.2 } := by
  apply turnWrites_other (by rw [hkey, dependSetup_keywords]) (by rintro (_ | _ | _ | _) <;> rfl)
  · simp [slotWrite, hkey]
  · simp [subSlotWrite, hkey]
  · simp [requiredUseWrite, hkey]
  · intro arch
    rw [keywordWrite, if_pos hkey]
    exact ebuildKeywordInit_apply _ _ _
  · simp [iuseWrites, hkey, Dict.setAll]

theorem turnWrites_iuse (hkey : pair.1 = "IUSE".toList) :
    TurnWrites p pair self { self with
      metadata := { self.metadata with iuse := ebuildIuseInit self.metadata.iuse pair.2 } } := by
  apply turnWrites_other (by rw [hkey, dependSetup_iuse]) (by rintro (_ | _ | _ | _) <;> rfl)
  · simp [slotWrite, hkey]
  · simp [subSlotWrite, hkey]
  · simp [requiredUseWrite, hkey]
  · simp [keywordWrite, hkey]
  · rw [iuseWrites, if_pos hkey]
    rfl

theorem metadataTurn_writes (h : (metadataTurn p pair.1 pair.2 self error).fields = some (t, error')) :
    TurnWrites p pair self t := by
  rw [metadataTurn] at h
  cases hd : dependSetup pair.1 with
  | some var =>
    simp only [hd] at h
    split_ifs at h with hold hnull
    · obtain ⟨rfl, -⟩ := Prod.mk.inj (Option.some.inj h)
      exact turnWrites_depend hd (setTarget_self _ _) (by rw [if_neg hold])
    · obtain ⟨rfl, -⟩ := Prod.mk.inj (Option.some.inj h)
      apply turnWrites_depend hd (setTarget_self _ _)
      rw [if_pos (not_not.mp hold), hnull, not_not.mp hold]
    · obtain ⟨rfl, -⟩ := Prod.mk.inj (Option.some.inj h)
      apply turnWrites_depend hd (setTarget_setTarget _ _ _)
      rw [target_setTarget, if_pos (not_not.mp hold)]
  | none =>
    simp only [hd] at h
    split_ifs at h with hslot hreq hnull hkey hiuse
    · cases htok : strtok pair.2 (· == '/') with
      | nil => simp [htok, MetadataTurn.fields] at h
      | cons tok rest =>
        simp only [htok] at h
        obtain ⟨rfl, -⟩ := Prod.mk.inj (Option.some.inj h)
        exact turnWrites_slot hslot htok
    · obtain ⟨rfl, -⟩ := Prod.mk.inj (Option.some.inj h)
      exact turnWrites_requiredUse hreq
    · obtain ⟨rfl, -⟩ := Prod.mk.inj (Option.some.inj h)
      exact turnWrites_requiredUse hreq
    · obtain ⟨rfl, -⟩ := Prod.mk.inj (Option.some.inj h)
      exact turnWrites_keywords hkey
    · obtain ⟨rfl, -⟩ := Prod.mk.inj (Option.some.inj h)
      exact turnWrites_iuse hiuse
    · obtain ⟨rfl, -⟩ := Prod.mk.inj (Option.some.inj h)
      apply turnWrites_other hd fun _ => rfl
      · rw [slotWrite, if_neg hslot, Option.getD_none]
      · rw [subSlotWrite, if_neg hslot, Option.getD_none]
      · rw [requiredUseWrite, if_neg hreq, Option.getD_none]
      · intro arch
        rw [keywordWrite, if_neg hkey, Option.getD_none]
      · rw [iuseWrites, if_neg hiuse]
        rfl

end Turn

/-- The turns of a loop, one for each pair. -/
inductive RunWrites (p : MetadataParsers) :
    List (List Char × List Char) → EbuildFields → EbuildFields → Prop
  | nil (self : EbuildFields) : RunWrites p [] self self
  | cons {pair : List Char × List Char} {pairs : List (List Char × List Char)}
      {self t u : EbuildFields} :
      TurnWrites p pair self t → RunWrites p pairs t u → RunWrites p (pair :: pairs) self u

theorem metadataLoop_writes {p : MetadataParsers} {n : Nat} {fp : Stream} {self t : EbuildFields}
    {error error' : Nat} {pairs : List (List Char × List Char)} {ending : MetadataTurn}
    (h : metadataLoop p n fp self error = some (pairs, ending))
    (hfields : ending.fields = some (t, error')) :
    pairs = upToRefused p (fp.pairs n) ∧ RunWrites p pairs self t := by
  induction n generalizing fp self error pairs with
  | zero => exact absurd h (by simp [metadataLoop])
  | succ n ih =>
    rw [metadataLoop] at h
    rw [Stream.pairs]
    by_cases heof : fp.eof = true
    · rw [if_pos heof] at h ⊢
      obtain ⟨rfl, rfl⟩ := Prod.mk.inj (Option.some.inj h)
      obtain ⟨rfl, -⟩ := Prod.mk.inj (Option.some.inj hfields)
      exact ⟨rfl, .nil self⟩
    · rw [if_neg heof] at h ⊢
      rcases hread : fp.readPair with ⟨_ | ⟨name, value⟩, fp'⟩
      · simp only [hread] at h ⊢
        obtain ⟨rfl, rfl⟩ := Prod.mk.inj (Option.some.inj h)
        obtain ⟨rfl, -⟩ := Prod.mk.inj (Option.some.inj hfields)
        exact ⟨rfl, .nil self⟩
      · have hstop : (∃ self' error', metadataTurn p name value self error = .stop self' error') ↔ _ :=
          metadataTurn_stop
        simp only [hread] at h ⊢
        cases hturn : metadataTurn p name value self error with
        | next self' error'' =>
          simp only [hturn] at h
          obtain ⟨⟨pairs', ending'⟩, hloop, he⟩ := Option.map_eq_some_iff.mp h
          obtain ⟨rfl, rfl⟩ := Prod.mk.inj he
          obtain ⟨rfl, hrun⟩ := ih hloop
          have hgo : ¬ (name = "REQUIRED_USE".toList ∧ p.requiredUseParse value = .null) := by
            rw [← hstop, hturn]
            simp
          have hfields : (metadataTurn p name value self error).fields = some (self', error'') := by
            rw [hturn]
            rfl
          have hwrites : TurnWrites p (name, value) self self' := metadataTurn_writes hfields
          exact ⟨by rw [upToRefused, if_neg hgo], .cons hwrites hrun⟩
        | stop self' error'' =>
          simp only [hturn] at h
          obtain ⟨rfl, rfl⟩ := Prod.mk.inj (Option.some.inj h)
          obtain ⟨rfl, rfl⟩ := Prod.mk.inj (Option.some.inj hfields)
          have hfields : (metadataTurn p name value self error).fields = some (self', error'') := by
            rw [hturn]
            rfl
          have hwrites : TurnWrites p (name, value) self self' := metadataTurn_writes hfields
          refine ⟨?_, .cons hwrites (.nil _)⟩
          rw [upToRefused, if_pos (hstop.mp ⟨self', error'', hturn⟩)]
        | crash =>
          simp only [hturn] at h
          obtain ⟨rfl, rfl⟩ := Prod.mk.inj (Option.some.inj h)
          exact absurd hfields (by simp [MetadataTurn.fields])

namespace RunWrites

variable {p : MetadataParsers} {lines : List (List Char × List Char)} {self t : EbuildFields}

/-- A field that each turn writes at most once has what was written last. -/
theorem last {β : Type} (field : EbuildFields → β) {w : List Char × List Char → Option β}
    (hstep : ∀ {pair self t}, TurnWrites p pair self t → field t = (w pair).getD (field self))
    (h : RunWrites p lines self t) : field t = (lines.filterMap w).getLast?.getD (field self) := by
  rw [← foldl_writes]
  induction h with
  | nil self => rfl
  | cons hturn _ ih => rw [ih, List.foldl_cons, hstep hturn]

theorem iuse (h : RunWrites p lines self t) :
    t.metadata.iuse = Dict.setAll UseFlag.name self.metadata.iuse (lines.flatMap iuseWrites) := by
  induction h with
  | nil self => rfl
  | cons hturn _ ih =>
    rw [ih, hturn.iuse, List.flatMap_cons]
    exact (List.foldl_append).symm

theorem target_of_ne (h : RunWrites p lines self t) {var : DependVar}
    (hne : self.metadata.target var ≠ .null) : t.metadata.target var = self.metadata.target var := by
  induction h with
  | nil self => rfl
  | cons hturn _ ih =>
    have hkeep := hturn.target var
    rw [if_neg fun he => hne he.1] at hkeep
    rw [ih (hkeep ▸ hne), hkeep]

theorem target_eq_null (h : RunWrites p lines self t) {var : DependVar}
    (hnull : self.metadata.target var = .null) : t.metadata.target var = .null ↔
      ∀ pair ∈ lines, dependSetup pair.1 = some var → p.dependParse pair.2 = .null := by
  induction h with
  | nil self => simp [hnull]
  | @cons pair pairs self t u hturn hrun ih =>
    have hstep := hturn.target var
    rw [List.forall_mem_cons]
    by_cases hd : dependSetup pair.1 = some var
    · rw [if_pos ⟨hnull, hd⟩] at hstep
      by_cases hparse : p.dependParse pair.2 = .null
      · rw [ih (hstep.trans hparse)]
        exact (and_iff_right fun _ => hparse).symm
      · have hset : t.metadata.target var ≠ .null := fun he => hparse (hstep.symm.trans he)
        rw [target_of_ne hrun hset]
        exact iff_of_false hset fun hall => hparse (hall.1 hd)
    · rw [if_neg fun he => hd he.2] at hstep
      rw [ih (hstep.trans hnull)]
      exact (and_iff_right fun he => absurd he hd).symm

theorem target (h : RunWrites p lines self t) (var : DependVar) :
    t.metadata.target var = self.metadata.target var ↔
      (self.metadata.target var = .null → ∀ pair ∈ lines, dependSetup pair.1 = some var →
        p.dependParse pair.2 = .null) := by
  by_cases hnull : self.metadata.target var = .null
  · rw [hnull, h.target_eq_null hnull, eq_self_iff_true, true_imp_iff]
  · exact iff_of_true (h.target_of_ne hnull) fun he => absurd he hnull

end RunWrites

theorem metadata_eq_iff {a b : Metadata} : a = b ↔ (∀ var, a.target var = b.target var) ∧
    a.slot = b.slot ∧ a.requiredUse = b.requiredUse ∧ a.iuse = b.iuse := by
  constructor
  · rintro rfl
    exact ⟨fun _ => rfl, rfl, rfl, rfl⟩
  · rintro ⟨htarget, hslot, hreq, hiuse⟩
    have hdepend := htarget .depend
    have hrdepend := htarget .rdepend
    have hpdepend := htarget .pdepend
    have hbdepend := htarget .bdepend
    cases a
    cases b
    simp_all [Metadata.target]

theorem sameFields_iff {p : MetadataParsers} {lines : List (List Char × List Char)}
    {self t : EbuildFields} (h : RunWrites p lines self.resetKeywords t) :
    SameFields self t ↔ LeavesAlone p lines self := by
  have hslot := h.last (fun e => e.metadata.slot) fun hturn => hturn.slot
  have hsub := h.last EbuildFields.subSlot fun hturn => hturn.subSlot
  have hreq := h.last (fun e => e.metadata.requiredUse) fun hturn => hturn.requiredUse
  have hkey : ∀ arch, t.keywords arch = (lines.filterMap (keywordWrite arch)).getLast?.getD .none :=
    fun arch => h.last (fun e => e.keywords arch) fun hturn => hturn.keywords arch
  constructor
  · rintro ⟨hm, hs, hk⟩
    obtain ⟨htarget, hslot', hreq', hiuse⟩ := metadata_eq_iff.mp hm
    refine ⟨fun var => (h.target var).mp (htarget var), ?_, ?_, ?_, fun arch => ?_, ?_⟩
    · exact getD_eq_self_iff.mp (hslot.symm.trans hslot')
    · exact getD_eq_self_iff.mp (hsub.symm.trans hs)
    · exact getD_eq_self_iff.mp (hreq.symm.trans hreq')
    · rw [← hkey, hk]
    · exact (Dict.setAll_eq_iff UseFlag.name).mp (h.iuse.symm.trans hiuse)
  · intro halone
    refine ⟨metadata_eq_iff.mpr ⟨fun var => (h.target var).mpr (halone.depends var), ?_, ?_, ?_⟩, ?_, ?_⟩
    · exact hslot.trans (getD_eq_self_iff.mpr halone.slot)
    · exact hreq.trans (getD_eq_self_iff.mpr halone.requiredUse)
    · exact h.iuse.trans ((Dict.setAll_eq_iff UseFlag.name).mpr halone.iuse)
    · exact hsub.trans (getD_eq_self_iff.mpr halone.subSlot)
    · funext arch
      rw [hkey, halone.keywords]

/-! `metadata_init` is not read. -/

def EbuildFields.withInit (self : EbuildFields) (metadataInit : Bool) : EbuildFields :=
  { self with metadataInit := metadataInit }

namespace MetadataTurn

def withInit (metadataInit : Bool) : MetadataTurn → MetadataTurn
  | next self error => next (self.withInit metadataInit) error
  | stop self error => stop (self.withInit metadataInit) error
  | crash => crash

theorem fields_withInit (turn : MetadataTurn) (b : Bool) :
    (turn.withInit b).fields = turn.fields.map fun r => (r.1.withInit b, r.2) := by
  cases turn <;> rfl

end MetadataTurn

theorem metadataTurn_withInit (p : MetadataParsers) (name value : List Char) (self : EbuildFields)
    (error : Nat) (b : Bool) : metadataTurn p name value (self.withInit b) error =
      (metadataTurn p name value self error).withInit b := by
  have hmeta : (self.withInit b).metadata = self.metadata := rfl
  rw [metadataTurn, metadataTurn]
  cases dependSetup name with
  | some var =>
    dsimp only
    rw [hmeta]
    split_ifs <;> rfl
  | none =>
    dsimp only
    rw [hmeta]
    split_ifs
    · cases strtok value (· == '/') <;> rfl
    all_goals rfl

theorem metadataLoop_withInit (p : MetadataParsers) (n : Nat) (fp : Stream) (self : EbuildFields)
    (error : Nat) (b : Bool) : metadataLoop p n fp (self.withInit b) error =
      (metadataLoop p n fp self error).map fun r => (r.1, r.2.withInit b) := by
  induction n generalizing fp self error with
  | zero => rfl
  | succ n ih =>
    rw [metadataLoop, metadataLoop]
    by_cases heof : fp.eof = true
    · rw [if_pos heof, if_pos heof]
      rfl
    · rw [if_neg heof, if_neg heof]
      rcases fp.readPair with ⟨_ | ⟨name, value⟩, fp'⟩
      · rfl
      · dsimp only
        rw [metadataTurn_withInit]
        cases metadataTurn p name value self error with
        | next self' error' =>
          show Option.map _ (metadataLoop p n fp' (self'.withInit b) error') = _
          rw [ih, Option.map_map, Option.map_map]
          rfl
        | stop self' error' => rfl
        | crash => rfl

theorem ebuildMetadataInit_withInit {p : MetadataParsers} {file : Option (List Char)} {closes : Bool}
    {self after : EbuildFields} (h : ebuildMetadataInit p file closes self = some (0, after)) (b : Bool) :
    ebuildMetadataInit p file closes (self.withInit b) = some (0, after) := by
  cases file with
  | none => exact absurd h (by simp [ebuildMetadataInit])
  | some text =>
    obtain ⟨r, hr, he⟩ := Option.map_eq_some_iff.mp h
    obtain ⟨hcode, hafter⟩ := Prod.mk.inj he
    have hzero : r.2 = 0 := by
      cases closes
      · simp at hcode
      · simpa using hcode
    have hread : readMetadataFile p text (self.withInit b) =
        (readMetadataFile p text self).map fun r => (r.1, r.2.withInit b) :=
      metadataLoop_withInit p _ _ self.resetKeywords 0 b
    have hbind : ((readMetadataFile p text (self.withInit b)).bind fun r => r.2.fields) =
        some (r.1.withInit b, r.2) := by
      obtain ⟨r', hr', hfields⟩ := Option.bind_eq_some_iff.mp hr
      rw [hread, hr', Option.map_some, Option.bind_some, MetadataTurn.fields_withInit, hfields]
      rfl
    simp only [ebuildMetadataInit, hbind, Option.map_some]
    rw [← hcode, ← hafter, if_pos hzero, if_pos hzero]
    rfl

/-- Without KEYWORDS a new ebuild is changed by any file: its keywords were not NONE. -/
theorem not_leavesAlone_fresh {p : MetadataParsers} {lines : List (List Char × List Char)}
    (h : ∀ pair ∈ lines, pair.1 ≠ "KEYWORDS".toList) : ¬ LeavesAlone p lines .fresh := by
  intro halone
  have hnone : lines.filterMap (keywordWrite .amd64) = [] := by
    rw [List.filterMap_eq_nil_iff]
    exact fun pair hp => if_neg (h pair hp)
  have hkey := halone.keywords .amd64
  rw [hnone] at hkey
  exact absurd hkey (by decide)

/-- However the call has ended, it has changed nothing that the next one sees if and
only if the lines that were processed leave the ebuild alone. -/
theorem ebuildMetadataInit_restored_iff (p : MetadataParsers) (file : Option (List Char))
    (closes : Bool) (self t : EbuildFields) (code : Int)
    (h : ebuildMetadataInit p file closes self = some (code, t)) :
    Restored p self t ↔ ∀ text ∈ file, LeavesAlone p (linesTaken p text) self := by
  have hretry : SameFields self t → self = .fresh → ∀ file closes after,
      ebuildMetadataInit p file closes .fresh = some (0, after) →
        ebuildMetadataInit p file closes t = some (0, after) := by
    rintro hsame rfl file closes after hfresh
    have ht : t = EbuildFields.fresh.withInit t.metadataInit := by
      obtain ⟨hm, hs, hk⟩ := hsame
      cases t
      simp_all [EbuildFields.withInit]
    rw [ht]
    exact ebuildMetadataInit_withInit hfresh _
  rw [Restored, and_iff_left_of_imp hretry]
  cases file with
  | none =>
    obtain ⟨-, rfl⟩ := Prod.mk.inj (Option.some.inj h)
    exact iff_of_true ⟨rfl, rfl, rfl⟩ (by simp)
  | some text =>
    obtain ⟨⟨t', error⟩, hr, he⟩ := Option.map_eq_some_iff.mp h
    obtain ⟨⟨pairs, ending⟩, hloop, hfields⟩ := Option.bind_eq_some_iff.mp hr
    obtain ⟨rfl, hrun⟩ := metadataLoop_writes hloop hfields
    have hsame : SameFields self t ↔ SameFields self t' := by
      rw [← (Prod.mk.inj he).2]
      dsimp only
      split_ifs
      · exact ⟨fun h => ⟨h.metadata, h.subSlot, h.keywords⟩, fun h => ⟨h.metadata, h.subSlot, h.keywords⟩⟩
      · rfl
    rw [hsame, sameFields_iff hrun]
    simp only [Option.mem_some_iff, forall_eq']
    rfl

/-- The parsers on the values of the two files: an atom is taken as a dependency, a flag
as a requirement, and an open bracket is refused. -/
def pairParsers : MetadataParsers where
  dependParse value :=
    match atomInit (Lut.lutNew 32) value with
    | .ok atom => .node .disable 0 (some atom) .null .null
    | .error _ => .null
  requiredUseParse value := if value = ['b'] then .node (some value) .enable .null .null else .null

def refusedFile : List Char := "DEPEND=a/b".toList ++ newline :: "REQUIRED_USE=(".toList ++ [newline]

def correctedFile : List Char := "DEPEND=a/b".toList ++ newline :: "REQUIRED_USE=b".toList ++ [newline]

theorem ebuildMetadataInit_restored_refused : Restored pairParsers .fresh
    ((ebuildMetadataInit pairParsers (some refusedFile) true .fresh).getD (0, .fresh)).2 ↔
    ∀ text ∈ some refusedFile, LeavesAlone pairParsers (linesTaken pairParsers text) .fresh :=
  ebuildMetadataInit_restored_iff pairParsers (some refusedFile) true .fresh _ 3 rfl

/-- The dependency of the first call is in the way of the second. -/
theorem refused_not_restored : ¬ ∀ (p : MetadataParsers) (file : Option (List Char)) (closes : Bool)
    (self t : EbuildFields) (code : Int), ebuildMetadataInit p file closes self = some (code, t) →
      code ≠ 0 → Restored p self t := by
  intro hall
  have hrestored := hall pairParsers (some refusedFile) true .fresh _ 3 rfl (by decide)
  have hretry := hrestored.2 rfl (some correctedFile) true _ rfl
  have hcode := congrArg (Option.map Prod.fst) hretry
  exact absurd hcode (by decide)

end AutoGentoo
