import AutoGentoo.MetadataRetry

/-! The lines of a cache file may stand in any order, where no key comes twice. -/

namespace AutoGentoo

/-- What the loop makes of a name. -/
inductive LineKind
  | depend (var : DependVar)
  | slot | requiredUse | keywords | iuse | other
  deriving DecidableEq

def lineKind (name : List Char) : LineKind :=
  match dependSetup name with
  | some var => .depend var
  | none =>
    if name = "SLOT".toList then .slot
    else if name = "REQUIRED_USE".toList then .requiredUse
    else if name = "KEYWORDS".toList then .keywords
    else if name = "IUSE".toList then .iuse
    else .other

/-- Whether a line is taken without an error. -/
def lineTaken (p : MetadataParsers) (kind : LineKind) (value : List Char) (self : EbuildFields) : Bool :=
  match kind with
  | .depend var => self.metadata.target var = .null && p.dependParse value ≠ .null
  | .slot => strtok value (· == '/') ≠ []
  | .requiredUse => p.requiredUseParse value ≠ .null
  | .keywords | .iuse | .other => true

def lineWrite (p : MetadataParsers) (kind : LineKind) (value : List Char) (self : EbuildFields) : EbuildFields :=
  match kind with
  | .depend var => { self with metadata := self.metadata.setTarget (p.dependParse value) var }
  | .slot => { self with
      metadata := { self.metadata with slot := (strtok value (· == '/')).head? }
      subSlot := (strtok value (· == '/')).tail.head?.or self.subSlot }
  | .requiredUse => { self with metadata := { self.metadata with requiredUse := p.requiredUseParse value } }
  | .keywords => { self with keywords := ebuildKeywordInit self.keywords value }
  | .iuse => { self with metadata := { self.metadata with iuse := ebuildIuseInit self.metadata.iuse value } }
  | .other => self

def takeLine (p : MetadataParsers) (kind : LineKind) (value : List Char) (self : EbuildFields) : Option EbuildFields :=
  if lineTaken p kind value self then some (lineWrite p kind value self) else none

def MetadataTurn.settled : MetadataTurn → Option EbuildFields
  | next self 0 => some self
  | next _ _ | stop _ _ | crash => none

variable {p : MetadataParsers} {name value : List Char} {self self' : EbuildFields} {error error' : Nat}

theorem settled_turn (p : MetadataParsers) (name value : List Char) (self : EbuildFields) :
    (metadataTurn p name value self 0).settled = takeLine p (lineKind name) value self := by
  rw [metadataTurn, lineKind]
  cases dependSetup name with
  | some var =>
    simp only
    split_ifs with htarget hnull
    · simp [MetadataTurn.settled, takeLine, lineTaken, htarget]
    · simp [MetadataTurn.settled, takeLine, lineTaken, hnull]
    · rw [not_not] at htarget
      simp [MetadataTurn.settled, takeLine, lineTaken, lineWrite, htarget, hnull]
  | none =>
    simp only
    split_ifs with hslot hrequired hnull
    · cases hstrtok : strtok value (· == '/') with
      | nil => simp [MetadataTurn.settled, takeLine, lineTaken, hstrtok]
      | cons tok rest => simp [MetadataTurn.settled, takeLine, lineTaken, lineWrite, hstrtok]
    · simp [MetadataTurn.settled, takeLine, lineTaken, hnull]
    · simp [MetadataTurn.settled, takeLine, lineTaken, lineWrite, hnull]
    · rfl
    · rfl
    · rfl

theorem turn_error (h : metadataTurn p name value self error = .next self' error') (herror : error ≠ 0) :
    error' ≠ 0 := by
  rw [metadataTurn] at h
  cases hsetup : dependSetup name with
  | some var =>
    simp only [hsetup] at h
    split_ifs at h <;> cases h <;> first | exact Nat.succ_ne_zero _ | exact herror
  | none =>
    simp only [hsetup] at h
    split_ifs at h
    · cases htok : strtok value (· == '/') with
      | nil => simp [htok] at h
      | cons tok rest =>
        simp only [htok] at h
        cases h
        exact herror
    all_goals
      cases h
      exact herror

theorem turn_stop (h : metadataTurn p name value self error = .stop self' error') : error' = 3 := by
  rw [metadataTurn] at h
  cases hsetup : dependSetup name with
  | some var =>
    simp only [hsetup] at h
    split_ifs at h
  | none =>
    simp only [hsetup] at h
    split_ifs at h
    · cases htok : strtok value (· == '/') <;> simp [htok] at h
    · cases h
      rfl

/-- The lines one after the other, up to the first that is not taken. -/
def takeLines (p : MetadataParsers) (lines : List MetadataLine) (fields : Option EbuildFields) : Option EbuildFields :=
  lines.foldl (fun fields line => fields.bind (takeLine p (lineKind (cString line.key)) (cString line.value))) fields

theorem takeLines_none (p : MetadataParsers) (lines : List MetadataLine) : takeLines p lines none = none := by
  induction lines with
  | nil => rfl
  | cons line lines ih => exact ih

theorem takeLines_cons (p : MetadataParsers) (line : MetadataLine) (lines : List MetadataLine) (self : EbuildFields) :
    takeLines p (line :: lines) (some self) =
      takeLines p lines (takeLine p (lineKind (cString line.key)) (cString line.value) self) := rfl

theorem metadataLoop_settled {n : Nat} {lines : List MetadataLine} {r : List (List Char × List Char) × MetadataTurn}
    (h : metadataLoop p n { rest := fileText true lines, eof := false } self error = some r) :
    (∀ self' error', r.2 = .stop self' error' → error' = 3) ∧
      r.2.settled = if error = 0 then takeLines p lines (some self) else none := by
  induction lines generalizing n self error r with
  | nil =>
    cases n with
    | zero => exact absurd h (by simp [metadataLoop])
    | succ n =>
      obtain rfl : ([], MetadataTurn.next self error) = r := Option.some.inj h
      refine ⟨fun _ _ hstop => absurd hstop (by simp), ?_⟩
      cases error <;> rfl
  | cons line lines ih =>
    cases n with
    | zero => exact absurd h (by simp [metadataLoop])
    | succ n =>
      rw [metadataLoop, if_neg (by simp), fileText, Bool.not_true, Bool.and_false, if_neg (by simp),
        Stream.readPair_line] at h
      dsimp only at h
      have hturn := settled_turn p (cString line.key) (cString line.value) self
      cases hnext : metadataTurn p (cString line.key) (cString line.value) self error with
      | next self' error' =>
        rw [hnext] at h
        obtain ⟨rest, hrest, rfl⟩ := Option.map_eq_some_iff.mp h
        obtain ⟨hstop, hsettled⟩ := ih hrest
        refine ⟨hstop, hsettled.trans ?_⟩
        by_cases herror : error = 0
        · subst herror
          rw [if_pos rfl, takeLines_cons, ← hturn, hnext]
          cases error' with
          | zero => rfl
          | succ error' => exact (takeLines_none p lines).symm
        · rw [if_neg herror, if_neg (turn_error hnext herror)]
      | stop self' error' =>
        rw [hnext] at h
        obtain rfl := Option.some.inj h
        refine ⟨fun self'' error'' hstop => ?_, ?_⟩
        · obtain ⟨-, rfl⟩ := MetadataTurn.stop.inj hstop
          exact turn_stop hnext
        · split_ifs with herror
          · subst herror
            rw [takeLines_cons, ← hturn, hnext]
            exact (takeLines_none p lines).symm
          · rfl
      | crash =>
        rw [hnext] at h
        obtain rfl := Option.some.inj h
        refine ⟨fun self'' error'' hstop => absurd hstop (by simp), ?_⟩
        split_ifs with herror
        · subst herror
          rw [takeLines_cons, ← hturn, hnext]
          exact (takeLines_none p lines).symm
        · rfl

theorem target_setTarget_ne (m : Metadata) (parsed : DependTree) {var var' : DependVar} (h : var ≠ var') :
    (m.setTarget parsed var).target var' = m.target var' := by
  cases var <;> cases var' <;> first | rfl | exact absurd rfl h

theorem setTarget_comm (m : Metadata) (parsed parsed' : DependTree) {var var' : DependVar} (h : var ≠ var') :
    (m.setTarget parsed var).setTarget parsed' var' = (m.setTarget parsed' var').setTarget parsed var := by
  cases var <;> cases var' <;> first | rfl | exact absurd rfl h

theorem lineTaken_write (p : MetadataParsers) {kind kind' : LineKind} (h : kind ≠ kind') (value value' : List Char)
    (self : EbuildFields) : lineTaken p kind value (lineWrite p kind' value' self) = lineTaken p kind value self := by
  cases kind with
  | slot | requiredUse | keywords | iuse | other => rfl
  | depend var =>
    cases kind' with
    | depend var' =>
      have hvar : var ≠ var' := fun he => h (congrArg LineKind.depend he)
      rw [lineTaken, lineTaken, lineWrite, target_setTarget_ne _ _ hvar.symm]
    | slot | requiredUse | keywords | iuse | other => cases var <;> rfl

theorem lineWrite_comm (p : MetadataParsers) {kind kind' : LineKind} (h : kind ≠ kind') (value value' : List Char)
    (self : EbuildFields) : lineWrite p kind' value' (lineWrite p kind value self) =
      lineWrite p kind value (lineWrite p kind' value' self) := by
  cases kind with
  | depend var =>
    cases kind' with
    | depend var' =>
      have hvar : var ≠ var' := fun he => h (congrArg LineKind.depend he)
      simp only [lineWrite, setTarget_comm self.metadata _ _ hvar]
    | slot | requiredUse | keywords | iuse | other => cases var <;> rfl
  | slot | requiredUse | keywords | iuse | other =>
    cases kind' with
    | depend var' => cases var' <;> rfl
    | slot | requiredUse | keywords | iuse | other => first | rfl | exact absurd rfl h

/-- Lines of different kinds do not see one another. -/
theorem takeLine_comm (p : MetadataParsers) {kind kind' : LineKind} (h : kind ≠ kind') (value value' : List Char)
    (self : EbuildFields) : (takeLine p kind value self).bind (takeLine p kind' value') =
      (takeLine p kind' value' self).bind (takeLine p kind value) := by
  have hthere := lineTaken_write p (Ne.symm h) value' value self
  have hback := lineTaken_write p h value value' self
  rw [takeLine, takeLine]
  by_cases htaken : lineTaken p kind value self = true
  · by_cases htaken' : lineTaken p kind' value' self = true
    · rw [if_pos htaken, if_pos htaken', Option.bind_some, Option.bind_some, takeLine, takeLine, hthere, hback,
        if_pos htaken, if_pos htaken', lineWrite_comm p h]
    · rw [if_pos htaken, if_neg htaken', Option.bind_some, Option.bind_none, takeLine, hthere, if_neg htaken']
  · by_cases htaken' : lineTaken p kind' value' self = true
    · rw [if_neg htaken, if_pos htaken', Option.bind_some, Option.bind_none, takeLine, hback, if_neg htaken]
    · rw [if_neg htaken, if_neg htaken']
      rfl

/-- The text of the names that are looked for. -/
def LineKind.text : LineKind → Option (List Char)
  | depend .depend => some "DEPEND".toList
  | depend .rdepend => some "RDEPEND".toList
  | depend .pdepend => some "PDEPEND".toList
  | depend .bdepend => some "BDEPEND".toList
  | slot => some "SLOT".toList
  | requiredUse => some "REQUIRED_USE".toList
  | keywords => some "KEYWORDS".toList
  | iuse => some "IUSE".toList
  | other => none

theorem dependSetup_text {var : DependVar} (h : dependSetup name = some var) :
    (LineKind.depend var).text = some name := by
  rw [dependSetup] at h
  split_ifs at h with h₁ h₂ h₃ h₄ <;> obtain rfl := Option.some.inj h
  · exact congrArg some h₁.symm
  · exact congrArg some h₂.symm
  · exact congrArg some h₃.symm
  · exact congrArg some h₄.symm

theorem lineKind_text (name : List Char) : lineKind name = .other ∨ (lineKind name).text = some name := by
  rw [lineKind]
  cases hsetup : dependSetup name with
  | some var => exact .inr (dependSetup_text hsetup)
  | none =>
    simp only
    split_ifs with h₁ h₂ h₃ h₄
    · exact .inr (congrArg some h₁.symm)
    · exact .inr (congrArg some h₂.symm)
    · exact .inr (congrArg some h₃.symm)
    · exact .inr (congrArg some h₄.symm)
    · exact .inl rfl

theorem takeLine_names (p : MetadataParsers) {name name' : List Char} (h : name ≠ name') (value value' : List Char)
    (self : EbuildFields) : (takeLine p (lineKind name) value self).bind (takeLine p (lineKind name') value') =
      (takeLine p (lineKind name') value' self).bind (takeLine p (lineKind name) value) := by
  by_cases hkind : lineKind name = lineKind name'
  · rcases lineKind_text name with hother | htext
    · rw [← hkind, hother]
      rfl
    · rcases lineKind_text name' with hother' | htext'
      · rw [hkind, hother']
        rfl
      · rw [hkind, htext'] at htext
        exact absurd (Option.some.inj htext).symm h
  · exact takeLine_comm p hkind value value' self

theorem takeLines_perm (p : MetadataParsers) {lines lines' : List MetadataLine} (hperm : lines.Perm lines')
    (hkeys : (lines.map fun line => cString line.key).Nodup) (fields : Option EbuildFields) :
    takeLines p lines fields = takeLines p lines' fields := by
  refine hperm.foldl_eq' (fun x hx y hy fields => ?_) fields
  by_cases hxy : x = y
  · rw [hxy]
  · cases fields with
    | none => rfl
    | some self =>
      refine takeLine_names p (fun hkey => hxy ?_) _ _ self
      exact List.inj_on_of_nodup_map hkeys hx hy hkey

/-- The call succeeds where every line is taken. -/
theorem ebuildMetadataInit_ok (p : MetadataParsers) (lines : List MetadataLine) (closes : Bool)
    (self after : EbuildFields) :
    ebuildMetadataInit p (some (fileText true lines)) closes self = some (0, after) ↔
      closes = true ∧ (takeLines p lines (some self.resetKeywords)).map
        (fun fields => { fields with metadataInit := true }) = some after := by
  obtain ⟨r, hr, -⟩ := metadataLoop_ends p ((fileText true lines).length + 1)
    { rest := fileText true lines, eof := false } self.resetKeywords 0 (Nat.lt_succ_self _)
  obtain ⟨hstop, hsettled⟩ := metadataLoop_settled hr
  rw [if_pos rfl] at hsettled
  rw [← hsettled, ebuildMetadataInit]
  dsimp only
  rw [readMetadataFile, hr, Option.bind_some]
  obtain ⟨pairs, turn⟩ := r
  cases turn with
  | next fields error =>
    cases error with
    | zero => cases closes <;> simp [MetadataTurn.fields, MetadataTurn.settled]
    | succ error =>
      cases closes with
      | false => simp [MetadataTurn.fields, MetadataTurn.settled]
      | true =>
        simp [MetadataTurn.fields, MetadataTurn.settled]
        omega
  | stop fields error =>
    obtain rfl := hstop fields error rfl
    cases closes <;> simp [MetadataTurn.fields, MetadataTurn.settled]
  | crash => simp [MetadataTurn.fields, MetadataTurn.settled]

/-- Where no key comes twice the order of the lines makes no difference to a call that
succeeds. -/
theorem line_order_irrelevant (p : MetadataParsers) {lines lines' : List MetadataLine} (hperm : lines.Perm lines')
    (hkeys : (lines.map fun line => cString line.key).Nodup) (closes : Bool) (self after : EbuildFields) :
    ebuildMetadataInit p (some (fileText true lines)) closes self = some (0, after) ↔
      ebuildMetadataInit p (some (fileText true lines')) closes self = some (0, after) := by
  rw [ebuildMetadataInit_ok, ebuildMetadataInit_ok, takeLines_perm p hperm hkeys]

def slotLine : MetadataLine where
  key := "SLOT".toList
  value := "0".toList
  keyOk := by decide
  valueOk := by decide

def iuseLine : MetadataLine where
  key := "IUSE".toList
  value := "+a b".toList
  keyOk := by decide
  valueOk := by decide

theorem line_order_irrelevant_two : ∃ after,
    ebuildMetadataInit anyParsers (some (fileText true [slotLine, iuseLine])) true .fresh = some (0, after) ∧
      ebuildMetadataInit anyParsers (some (fileText true [iuseLine, slotLine])) true .fresh = some (0, after) :=
  ⟨_, rfl, (line_order_irrelevant anyParsers (List.Perm.swap _ _ _) (by decide) true .fresh _).mp rfl⟩

end AutoGentoo
