import AutoGentoo.LutRefinement
import AutoGentoo.RefCounts
import AutoGentoo.GuardedRun

/-! The references that the nodes of a lookup table hold. -/

namespace AutoGentoo

namespace Lut

/-- The data as an address: a Python object, an object of our own, or no object. -/
def takeData (flags data : Nat) (counts : RefCounts Nat) : RefCounts Nat :=
  if flags &&& lutFlagPython ≠ 0 then counts.take data
  else if flags &&& lutFlagReference ≠ 0 then counts.take data
  else counts

def releaseData (flags data : Nat) (counts : RefCounts Nat) : RefCounts Nat :=
  if flags &&& lutFlagPython ≠ 0 then counts.release data
  else if flags &&& lutFlagReference ≠ 0 then counts.releaseUnsigned data
  else counts

/-- The counts of `lut_insert_id`: the new node takes a reference, and gives it back
where it only serves to overwrite. -/
def insertNodeCounts (self : Lut) (node : LutNode) (counts : RefCounts Nat) : RefCounts Nat :=
  let counts := takeData node.flags node.data counts
  if node.flags &&& lutFlagNotFound ≠ 0 then counts
  else if node.flags &&& lutFlagExists ≠ 0 then
    match findId self node.id with
    | none => counts
    | some current =>
      let counts :=
        if node.data ≠ current.data then
          releaseData current.flags current.data (takeData node.flags node.data counts)
        else counts
      releaseData node.flags node.data counts
  else counts

/-- `lut_insert` with the counts. -/
def lutInsertCounts (self : Lut) (key : List Char) (data flags : Nat) (counts : RefCounts Nat) :
    Option (Lut × RefCounts Nat) := do
  let found := lutGetId self key
  let grown ← grow self
  let node : LutNode := { id := found.1, key := key, data := data, flags := found.2 ||| flags }
  let lut ← insertNode grown node
  return (lut, insertNodeCounts grown node counts)

/-- The data of the nodes. -/
def held (self : Lut) : List Nat := self.table.flatten.map LutNode.data

variable {lut grown : Lut} {counts : RefCounts Nat} {outside : Nat → Nat}

/-- Every node holds a Python object. -/
def AllPython (lut : Lut) : Prop := ∀ node ∈ lut.table.flatten, node.flags &&& lutFlagPython ≠ 0

theorem takeData_python {flags : Nat} (h : flags &&& lutFlagPython ≠ 0) (data : Nat) :
    takeData flags data counts = counts.take data := if_pos h

theorem releaseData_python {flags : Nat} (h : flags &&& lutFlagPython ≠ 0) (data : Nat) :
    releaseData flags data counts = counts.release data := if_pos h

theorem Regrown.perm (hs : Shaped lut) (hg : Regrown lut grown) :
    grown.table.flatten.Perm lut.table.flatten :=
  Chains.perm_of_ofHash hs.placed hg.shaped.placed hg.nodes

theorem overwrite_found {id : Nat} (data flag : Nat) {chain : List LutNode} {current : LutNode}
    (h : chain.find? (·.id = id) = some current) : ∃ front back, chain = front ++ current :: back ∧
      overwrite id data flag chain =
        some (front ++ { current with data := data, flags := flag } :: back) := by
  induction chain with
  | nil => simp at h
  | cons node chain ih =>
    rw [overwrite]
    by_cases hid : node.id = id
    · rw [List.find?_cons_of_pos (by simpa using hid)] at h
      obtain rfl := Option.some.inj h
      exact ⟨[], chain, rfl, if_pos hid⟩
    · rw [List.find?_cons_of_neg (by simpa using hid)] at h
      obtain ⟨front, back, rfl, hover⟩ := ih h
      exact ⟨node :: front, back, rfl, by rw [if_neg hid, hover]; rfl⟩

/-- `lut_get_id` reports a key as known only with the id of a node. -/
theorem idLoop_cases (key : List Char) (h k : Nat) (chain : List LutNode) :
    (idLoop key h k chain).2 = lutFlagNotFound ∨ (idLoop key h k chain).2 = lutFlagExists ∧
      ∃ node ∈ chain, node.hash = h ∧ node.id = (idLoop key h k chain).1 := by
  induction chain generalizing k with
  | nil => exact .inl rfl
  | cons node chain ih =>
    have hrest : ∀ k, (idLoop key h k chain).2 = lutFlagNotFound ∨
        (idLoop key h k chain).2 = lutFlagExists ∧
          ∃ x ∈ node :: chain, x.hash = h ∧ x.id = (idLoop key h k chain).1 := by
      intro k
      obtain hnew | ⟨hold, x, hx, hxh⟩ := ih k
      · exact .inl hnew
      · exact .inr ⟨hold, x, List.mem_cons_of_mem _ hx, hxh⟩
    rw [idLoop]
    split_ifs with hh hk
    · exact .inr ⟨rfl, node, List.mem_cons_self, hh, rfl⟩
    · exact hrest _
    · exact hrest k

theorem replace_shaped (hs : Shaped grown) (hroom : min (grown.count + 2) (2 ^ 32) ≤ grown.reallocAt)
    {h : Nat} {front back : List LutNode} {node node' : LutNode}
    (hchain : Chains.bucket grown.table h = front ++ node :: back) (hid : node'.id = node.id) :
    Shaped { grown with
      table := Chains.modifyBucket grown.table h fun _ => front ++ node' :: back } := by
  have hcount : Lut.count { grown with
      table := Chains.modifyBucket grown.table h fun _ => front ++ node' :: back } = grown.count := by
    have hlen := Chains.length_flatten_modifyBucket hs.table_ne_nil h fun _ => front ++ node' :: back
    rw [hchain] at hlen
    simp only [List.length_append, List.length_cons] at hlen
    exact Nat.add_right_cancel hlen
  refine ⟨hs.size_pos, (Chains.length_modifyBucket _ _ _).trans hs.table_size, hs.realloc_at,
    Chains.placed_modify hs.table_ne_nil hs.placed (hs.placed.replace hchain ?_), ?_, ?_⟩
  · rw [LutNode.hash, hid]
    rfl
  · rw [hcount]
    exact hs.count_eq
  · rw [hcount]
    refine .inr (le_trans ?_ hroom)
    omega

/-- What every insertion keeps. -/
structure Owned (lut : Lut) (counts : RefCounts Nat) (outside : Nat → Nat) : Prop where
  shaped : Shaped lut
  python : AllPython lut
  balanced : counts.Balanced outside lut.held

theorem Owned.withNode (ho : Owned grown counts outside)
    (hroom : min (grown.count + 2) (2 ^ 32) ≤ grown.reallocAt) {node : LutNode}
    (hpy : node.flags &&& lutFlagPython ≠ 0) :
    Owned (grown.withNode node) (counts.take node.data) outside := by
  have hperm : (grown.withNode node).table.flatten.Perm (node :: grown.table.flatten) :=
    Chains.flatten_add_perm ho.shaped.table_ne_nil node
  refine ⟨withNode_shaped ho.shaped hroom, fun x hx => ?_, ?_⟩
  · obtain rfl | hx := List.mem_cons.mp (hperm.mem_iff.mp hx)
    · exact hpy
    · exact ho.python x hx
  · exact (ho.balanced.take node.data).perm (hperm.map LutNode.data).symm

/-- The references of the new node and of the extra one, less those of the old data
and of the new node. -/
theorem overwrite_balanced (data : Nat) {old : Nat} {rest : List Nat}
    (hb : counts.Balanced outside (old :: rest)) :
    let after := if data ≠ old then (((counts.take data).take data).release old).release data
      else (counts.take data).release data
    after.Balanced outside (data :: rest) ∧ counts.FreesUnheld after outside (data :: rest) := by
  have htake := hb.take data
  have hfreed := RefCounts.freed_take counts data
  dsimp only
  by_cases hd : data = old
  · subst hd
    rw [if_neg (not_not.mpr rfl)]
    exact ⟨htake.release, (RefCounts.FreesUnheld.of_freed_eq hfreed).trans htake.freesUnheld_release
      fun _ h => h⟩
  · rw [if_pos hd]
    have hswap : ((counts.take data).take data).Balanced outside (old :: data :: data :: rest) :=
      (htake.take data).perm ((List.Perm.swap old data _).cons data |>.trans (.swap old data _))
    have hold : counts.FreesUnheld (((counts.take data).take data).release old) outside
        (data :: data :: rest) :=
      (RefCounts.FreesUnheld.of_freed_eq ((RefCounts.freed_take _ data).trans hfreed)).trans
        hswap.freesUnheld_release fun _ h => h
    exact ⟨hswap.release.release, hold.trans hswap.release.freesUnheld_release
      fun x hx => List.mem_cons_of_mem _ hx⟩

theorem insertNode_new (ho : Owned grown counts outside)
    (hroom : min (grown.count + 2) (2 ^ 32) ≤ grown.reallocAt) (node : LutNode)
    (hpy : node.flags &&& lutFlagPython ≠ 0) (hnew : node.flags &&& lutFlagNotFound ≠ 0) :
    ∃ lut', insertNode grown node = some lut' ∧
      Owned lut' (insertNodeCounts grown node counts) outside ∧
      counts.FreesUnheld (insertNodeCounts grown node counts) outside lut'.held := by
  have hcounts : insertNodeCounts grown node counts = counts.take node.data := by
    rw [insertNodeCounts, if_pos hnew, takeData_python hpy]
  rw [hcounts]
  exact ⟨grown.withNode node, if_pos hnew, ho.withNode hroom hpy,
    .of_freed_eq (RefCounts.freed_take counts node.data)⟩

theorem insertNode_old (ho : Owned grown counts outside)
    (hroom : min (grown.count + 2) (2 ^ 32) ≤ grown.reallocAt) (node : LutNode)
    (hpy : node.flags &&& lutFlagPython ≠ 0) (hold : node.flags &&& lutFlagNotFound = 0)
    (hexists : node.flags &&& lutFlagExists ≠ 0)
    (hfound : ∃ x ∈ Chains.bucket grown.table node.hash, x.id = node.id) :
    ∃ lut', insertNode grown node = some lut' ∧
      Owned lut' (insertNodeCounts grown node counts) outside ∧
      counts.FreesUnheld (insertNodeCounts grown node counts) outside lut'.held := by
  cases hfind : findId grown node.id with
  | none =>
    obtain ⟨x, hx, hid⟩ := hfound
    exact absurd hid (by simpa using List.find?_eq_none.mp hfind x hx)
  | some current =>
    obtain ⟨front, back, hchain, hover⟩ :=
      overwrite_found node.data node.flags hfind
    have hcid : current.id = node.id := by simpa using List.find?_some hfind
    let put : LutNode := { current with data := node.data, flags := node.flags }
    obtain ⟨rest, hbefore, hreplace, -⟩ := Chains.flatten_replace_perm ho.shaped.table_ne_nil hchain
    have hafter := hreplace put
    have hpycur : current.flags &&& lutFlagPython ≠ 0 :=
      ho.python current (hbefore.mem_iff.mpr List.mem_cons_self)
    have hcounts : insertNodeCounts grown node counts =
        if node.data ≠ current.data then
          (((counts.take node.data).take node.data).release current.data).release node.data
        else (counts.take node.data).release node.data := by
      rw [insertNodeCounts, if_neg (not_not.mpr hold), if_pos hexists, hfind]
      simp only [takeData_python hpy, releaseData_python hpy, releaseData_python hpycur]
      split_ifs <;> rfl
    have hinsert : insertNode grown node = some { grown with
        table := Chains.modifyBucket grown.table node.hash fun _ => front ++ put :: back } := by
      have hbucket : overwrite node.id node.data node.flags (Chains.bucket grown.table node.hash) =
          some (front ++ put :: back) := hover
      rw [insertNode, if_neg (not_not.mpr hold), if_pos hexists, hbucket]
      rfl
    obtain ⟨hbalanced, hfrees⟩ :=
      overwrite_balanced node.data (ho.balanced.perm (hbefore.map LutNode.data))
    have hheld := hafter.map LutNode.data
    rw [hcounts]
    refine ⟨_, hinsert, ⟨replace_shaped ho.shaped hroom hchain rfl, fun x hx => ?_,
      hbalanced.perm hheld.symm⟩, hfrees.trans (.refl _ _ _) fun x hx => hheld.mem_iff.mp hx⟩
    obtain rfl | hx := List.mem_cons.mp (hafter.mem_iff.mp hx)
    · exact hpy
    · exact ho.python x (hbefore.mem_iff.mpr (List.mem_cons_of_mem _ hx))

theorem python_flags : (lutFlagNotFound ||| lutFlagPython) &&& lutFlagPython ≠ 0 ∧
    (lutFlagExists ||| lutFlagPython) &&& lutFlagPython ≠ 0 := by decide

theorem lutInsertCounts_spec (ho : Owned lut counts outside) (key : List Char) (data : Nat) :
    ∃ lut' counts', lutInsertCounts lut key data lutFlagPython counts = some (lut', counts') ∧
      Owned lut' counts' outside ∧ counts.FreesUnheld counts' outside lut'.held := by
  obtain ⟨grown, hgrow, hg⟩ := regrow_spec ho.shaped
  have hperm := hg.perm ho.shaped
  have hog : Owned grown counts outside :=
    ⟨hg.shaped, fun x hx => ho.python x (hperm.mem_iff.mp hx),
      ho.balanced.perm (hperm.map LutNode.data).symm⟩
  have hcaller : lutFlagPython ∈ callerFlags := by decide
  simp only [lutInsertCounts, hgrow, Option.bind_eq_bind, Option.bind_some]
  obtain hnew | ⟨hold, x, hx, hhash, hid⟩ :=
    idLoop_cases key (mapGetHash key) 0 (Chains.bucket lut.table (mapGetHash key))
  · have hflag : (lutGetId lut key).2 = lutFlagNotFound := hnew
    obtain ⟨lut', hinsert, hspec⟩ := insertNode_new hog hg.room
      ⟨(lutGetId lut key).1, key, data, lutFlagNotFound ||| lutFlagPython⟩ python_flags.1
      (callerFlags_fresh hcaller)
    exact ⟨lut', _, by rw [hflag, hinsert]; rfl, hspec⟩
  · have hflag : (lutGetId lut key).2 = lutFlagExists := hold
    have hmem : x ∈ grown.nodesOf (mapGetHash key) := by
      rw [hg.nodes]
      exact List.mem_filter.mpr ⟨hx, decide_eq_true hhash⟩
    have hbucket : x ∈ Chains.bucket grown.table (lutIdGetHash (lutGetId lut key).1) := by
      have hid' : x.id = (lutGetId lut key).1 := hid
      rw [← hid', ← LutNode.hash, hhash]
      exact (List.mem_filter.mp hmem).1
    obtain ⟨lut', hinsert, hspec⟩ := insertNode_old hog hg.room
      ⟨(lutGetId lut key).1, key, data, lutFlagExists ||| lutFlagPython⟩ python_flags.2
      (callerFlags_exists hcaller).1 (callerFlags_exists hcaller).2 ⟨x, hbucket, hid⟩
    exact ⟨lut', _, by rw [hflag, hinsert]; rfl, hspec⟩

/-- The counts do not enter into what happens to the table. -/
theorem lutInsertCounts_lut (self : Lut) (key : List Char) (data flags : Nat)
    (counts : RefCounts Nat) : (lutInsertCounts self key data flags counts).map Prod.fst =
      (lutInsert self key data flags).map Prod.fst := by
  simp only [lutInsertCounts, lutInsert, lutInsertId, Option.bind_eq_bind]
  cases grow self with
  | none => rfl
  | some grown =>
    simp only [Option.bind_some]
    cases insertNode grown ⟨(lutGetId self key).1, key, data, (lutGetId self key).2 ||| flags⟩ <;> rfl

/-! ### Runs -/

/-- A table among others who hold references. -/
structure Counted where
  lut : Lut
  counts : RefCounts Nat
  outside : Nat → Nat

/-- An insertion of a Python object, or somebody outside takes a reference or gives
one up. -/
inductive CountedStep
  | insert (key : List Char) (data : Nat)
  | hold (x : Nat)
  | drop (x : Nat)

/-- Nobody gives up a reference it does not have. -/
def Counted.step (self : Counted) : CountedStep → Option Counted
  | .insert key data => (lutInsertCounts self.lut key data lutFlagPython self.counts).map
      fun r => { self with lut := r.1, counts := r.2 }
  | .hold x => some { self with
      counts := self.counts.take x
      outside := Function.update self.outside x (self.outside x + 1) }
  | .drop x =>
    if self.outside x = 0 then some self
    else some { self with
      counts := self.counts.release x
      outside := Function.update self.outside x (self.outside x - 1) }

/-- A new table, where every reference is outside. -/
def Counted.new (size : Nat) (outside : Nat → Nat) : Counted where
  lut := lutNew size
  counts := { count := fun x => outside x, freed := [] }
  outside := outside

theorem owned_new {size : Nat} (hs : 0 < size) (outside : Nat → Nat) :
    Owned (lutNew size) { count := fun x => outside x, freed := [] } outside := by
  have hflat : (lutNew size).table.flatten = [] := by simp [lutNew, Chains.empty]
  refine ⟨(lutNew_valid hs).shaped, fun node hn => ?_, fun x _ => ?_⟩
  · rw [hflat] at hn
    exact absurd hn List.not_mem_nil
  · simp [held, hflat]

theorem Counted.step_owned {self : Counted} (ho : Owned self.lut self.counts self.outside)
    (op : CountedStep) : ∃ t, self.step op = some t ∧ Owned t.lut t.counts t.outside ∧
      self.counts.FreesUnheld t.counts t.outside t.lut.held := by
  cases op with
  | insert key data =>
    obtain ⟨lut, counts, hinsert, hspec⟩ := lutInsertCounts_spec ho key data
    exact ⟨{ self with lut := lut, counts := counts }, by rw [step, hinsert]; rfl, hspec⟩
  | hold x =>
    exact ⟨_, rfl, ⟨ho.shaped, ho.python, (ho.balanced.take x).pass⟩,
      .of_freed_eq (RefCounts.freed_take _ x)⟩
  | drop x =>
    by_cases hx : self.outside x = 0
    · exact ⟨self, if_pos hx, ho, .refl _ _ _⟩
    · have hreceive := ho.balanced.receive hx
      exact ⟨_, if_neg hx, ⟨ho.shaped, ho.python, hreceive.release⟩, hreceive.freesUnheld_release⟩

theorem Counted.run_owned (self : Counted) (ho : Owned self.lut self.counts self.outside)
    (ops : List CountedStep) :
    ∃ t, GuardedRun.run Counted.step self ops = some t ∧ Owned t.lut t.counts t.outside := by
  induction ops generalizing self with
  | nil => exact ⟨self, rfl, ho⟩
  | cons op ops ih =>
    obtain ⟨mid, hstep, hmid, -⟩ := step_owned ho op
    obtain ⟨t, hrun, ht⟩ := ih mid hmid
    exact ⟨t, by rw [GuardedRun.run, hstep]; exact hrun, ht⟩

end Lut

end AutoGentoo
