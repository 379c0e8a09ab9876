import AutoGentoo.RequiredUse

/-! The walk over the parsed expression visits the nodes of the text exactly
when no plain group of several nodes has a sibling after it. -/

namespace AutoGentoo

mutual

def RequiredUseExpr.names : RequiredUseExpr → List (List Char)
  | .single s => s.names
  | .cons s rest => s.names ++ rest.names

def RequiredUseSingle.names : RequiredUseSingle → List (List Char)
  | .useExpr e => [e.target]
  | .depend sel e => sel.target.toList ++ e.names
  | .group e => e.names

end

/-- A table of flags that has room for the given names. -/
structure FlagRoom (names : List (List Char)) (flags : Lut) : Prop where
  valid : Lut.Valid flags
  within : Lut.Within names flags
  few : Lut.FewCollisions names

namespace FlagRoom

variable {names : List (List Char)}

theorem useGetGlobal {heap : UseHeap} (h : FlagRoom names heap.globalFlags)
    {target : Option (List Char)} (ht : ∀ name ∈ target, name ∈ names) :
    ∃ r, heap.useGetGlobal target = some r ∧ FlagRoom names r.1.globalFlags := by
  cases target with
  | none => exact ⟨_, rfl, h⟩
  | some name =>
    simp only [UseHeap.useGetGlobal]
    cases hc : Lut.content heap.globalFlags name with
    | some c =>
      obtain ⟨hid, -, -⟩ := h.valid.found hc
      rw [hid]
      have hflag : ¬ lutFlagExists &&& lutFlagNotFound ≠ 0 := by decide
      exact ⟨_, if_neg hflag, h⟩
    | none =>
      have hname : name ∈ names := ht name rfl
      have hroom := Lut.absent_room h.valid h.within h.few hname hc
      obtain ⟨id, hid, -, -, -⟩ := h.valid.absent hc (Nat.lt_of_succ_lt hroom)
      obtain ⟨lut, hlut, hi⟩ := Lut.lutInsert_spec h.valid
        ⟨name, heap.flags.length + 1, lutFlagPython⟩ (fun _ => Nat.lt_of_succ_lt hroom)
        (show lutFlagPython ∈ Lut.callerFlags by decide)
      have hins : Lut.lutInsertId heap.globalFlags name (heap.flags.length + 1) id
          (lutFlagNotFound ||| lutFlagPython) = some lut := by
        simp only [Lut.lutInsert, hid, Option.bind_eq_bind, Option.bind_eq_some_iff] at hlut
        obtain ⟨lut', hlut, he⟩ := hlut
        rw [hlut]
        exact congrArg some (Prod.mk.inj (Option.some.inj he)).1
      rw [hid, hins]
      have hflag : lutFlagNotFound &&& lutFlagNotFound ≠ 0 := by decide
      exact ⟨_, if_pos hflag, hi.valid, h.within.update hname hi.content_eq, h.few⟩

theorem useBuildRequiredUse {heap : UseHeap} (h : FlagRoom names heap.globalFlags)
    {target : Option (List Char)} (ht : ∀ name ∈ target, name ∈ names) (option : UseOperator) :
    ∃ r, heap.useBuildRequiredUse target option = some r ∧ FlagRoom names r.1.globalFlags := by
  obtain ⟨g, hg, hr⟩ := h.useGetGlobal ht
  rw [UseHeap.useBuildRequiredUse, hg]
  exact ⟨_, rfl, hr⟩

mutual

theorem requiredUseExpr {heap : UseHeap} (h : FlagRoom names heap.globalFlags) :
    ∀ {e : RequiredUseExpr}, e.names ⊆ names →
      ∃ r, heap.requiredUseExpr e = some r ∧ FlagRoom names r.1.globalFlags
  | .single s, hs => requiredUseSingle h (e := s) hs
  | .cons s rest, hs => by
    obtain ⟨hsn, hrn⟩ := List.append_subset.mp hs
    obtain ⟨first, hf, hroom⟩ := requiredUseSingle h hsn
    obtain ⟨second, hse, hroom⟩ := requiredUseExpr hroom hrn
    refine ⟨(second.1.setNext first.2 second.2, first.2), ?_, hroom⟩
    rw [UseHeap.requiredUseExpr, hf, Option.bind_some, hse, Option.map_some]

theorem requiredUseSingle {heap : UseHeap} (h : FlagRoom names heap.globalFlags) :
    ∀ {e : RequiredUseSingle}, e.names ⊆ names →
      ∃ r, heap.requiredUseSingle e = some r ∧ FlagRoom names r.1.globalFlags
  | .useExpr e, hs => useBuildRequiredUse h (by simpa [RequiredUseSingle.names] using hs) _
  | .depend sel e, hs => by
    obtain ⟨hsn, hen⟩ := List.append_subset.mp hs
    obtain ⟨third, ht, hroom⟩ := requiredUseExpr h hen
    have htarget : ∀ name ∈ sel.target, name ∈ names :=
      fun name hname => hsn (Option.mem_toList.mpr hname)
    obtain ⟨out, ho, hroom⟩ := useBuildRequiredUse hroom htarget sel.operator
    refine ⟨(out.1.setDepend out.2 third.2, out.2), ?_, hroom⟩
    rw [UseHeap.requiredUseSingle, ht, Option.bind_some, ho, Option.map_some]
  | .group e, hs => requiredUseExpr h (e := e) hs

end

/-- From an empty table any text is read, if not too many of its names collide. -/
theorem programRequiredUse_init {p : Option RequiredUseExpr}
    (hfew : Lut.FewCollisions ((p.map RequiredUseExpr.names).getD [])) :
    ∃ heap' root, UseHeap.init.programRequiredUse p = some (heap', root) := by
  cases p with
  | none => exact ⟨_, _, rfl⟩
  | some e =>
    have hroom : FlagRoom e.names UseHeap.init.globalFlags :=
      ⟨Lut.lutNew_valid (by decide), fun key hne => absurd (Lut.lutNew_content 256 key) hne, hfew⟩
    obtain ⟨r, hr, -⟩ := requiredUseExpr hroom (List.Subset.refl e.names)
    exact ⟨r.1, some r.2, by rw [UseHeap.programRequiredUse, hr, Option.map_some]⟩

end FlagRoom

/-- A pointer leads to a tree whose nodes lie in an interval, those below a node
before it and those after it behind it. -/
inductive Represents (nodes : List RequiredUse) : Nat → Nat → Option Nat → UseTree → Prop
  | null {lo hi : Nat} : Represents nodes lo hi none .null
  | node {lo hi a : Nat} {n : RequiredUse} {depend next : UseTree} (hlo : lo ≤ a) (hhi : a < hi)
      (hnode : nodes[a]? = some n) (hdepend : Represents nodes lo a n.depend depend)
      (hnext : Represents nodes (a + 1) hi n.next next) :
      Represents nodes lo hi (some a) (.node n.name n.option depend next)

namespace Represents

variable {nodes nodes' : List RequiredUse} {lo hi : Nat} {p : Option Nat} {t : UseTree}

theorem frame (h : Represents nodes lo hi p t)
    (hsame : ∀ i, lo ≤ i → i < hi → nodes'[i]? = nodes[i]?) : Represents nodes' lo hi p t := by
  induction h with
  | null => exact .null
  | node hlo hhi hnode _ _ ihd ihn =>
    refine .node hlo hhi ?_ (ihd fun i h h' => ?_) (ihn fun i h h' => ?_)
    · rw [hsame _ hlo hhi, hnode]
    · exact hsame i h (h'.trans hhi)
    · exact hsame i (hlo.trans (Nat.le_of_succ_le h)) h'

theorem mono (h : Represents nodes lo hi p t) {lo' hi' : Nat} (hl : lo' ≤ lo) (hh : hi ≤ hi') :
    Represents nodes lo' hi' p t := by
  induction h generalizing lo' hi' with
  | null => exact .null
  | node hlo hhi hnode _ _ ihd ihn =>
    exact .node (hl.trans hlo) (hhi.trans_le hh) hnode (ihd hl le_rfl) (ihn le_rfl hh)

theorem size_le (h : Represents nodes lo hi p t) : t.size ≤ hi - lo := by
  induction h with
  | null => exact Nat.zero_le _
  | node hlo hhi _ _ _ ihd ihn =>
    rw [UseTree.size]
    omega

theorem walk_eq (h : Represents nodes lo hi p t) {fuel : Nat} (hf : t.size ≤ fuel) :
    walk nodes fuel p = some t := by
  induction h generalizing fuel with
  | null => cases fuel <;> rfl
  | node _ _ hnode _ _ ihd ihn =>
    rw [UseTree.size] at hf
    obtain ⟨fuel, rfl⟩ : ∃ n, fuel = n + 1 := ⟨fuel - 1, by omega⟩
    have hd := ihd (show _ ≤ fuel by omega)
    have hn := ihn (show _ ≤ fuel by omega)
    rw [walk, hnode, Option.bind_some, hd, Option.bind_some, hn]
    rfl

end Represents

/-- What a reduction did to the heap: it added the nodes of a tree. -/
structure Built (heap heap' : UseHeap) (address : Nat) (t : UseTree) : Prop where
  length_le : heap.nodes.length ≤ heap'.nodes.length
  old : ∀ i < heap.nodes.length, heap'.nodes[i]? = heap.nodes[i]?
  tree : Represents heap'.nodes heap.nodes.length heap'.nodes.length (some address) t

theorem Built.walk_eq {heap heap' : UseHeap} {address : Nat} {t : UseTree}
    (h : Built heap heap' address t) :
    walk heap'.nodes heap'.nodes.length (some address) = some t :=
  h.tree.walk_eq (h.tree.size_le.trans (Nat.sub_le _ _))

theorem useGetGlobal_nodes {heap : UseHeap} {target : Option (List Char)} {r : UseHeap × Nat}
    (h : heap.useGetGlobal target = some r) : r.1.nodes = heap.nodes := by
  cases target with
  | none => rw [← Option.some.inj h]
  | some useflag =>
    simp only [UseHeap.useGetGlobal] at h
    split at h
    · obtain ⟨lut, -, rfl⟩ := Option.map_eq_some_iff.mp h
      rfl
    · rw [← Option.some.inj h]

theorem useBuildRequiredUse_nodes {heap : UseHeap} {target : Option (List Char)}
    {option : UseOperator} {r : UseHeap × Nat}
    (h : heap.useBuildRequiredUse target option = some r) :
    r.2 = heap.nodes.length ∧ ∃ id, r.1.nodes = heap.nodes ++ [{
      name := target, globalFlag := id, option := option, depend := none, next := none }] := by
  obtain ⟨g, hg, rfl⟩ := Option.map_eq_some_iff.mp h
  rw [← useGetGlobal_nodes hg]
  exact ⟨rfl, g.2, rfl⟩

theorem built_node {heap : UseHeap} {target : Option (List Char)} {option : UseOperator}
    {r : UseHeap × Nat} (h : heap.useBuildRequiredUse target option = some r) :
    Built heap r.1 r.2 (.node target option .null .null) := by
  obtain ⟨haddr, id, hnodes⟩ := useBuildRequiredUse_nodes h
  have hlen : r.1.nodes.length = heap.nodes.length + 1 := by simp [hnodes]
  refine ⟨by omega, fun i hi => ?_, ?_⟩
  · rw [hnodes, List.getElem?_append_left hi]
  · rw [haddr]
    exact .node (n := ⟨target, id, option, none, none⟩) le_rfl (by omega) (by simp [hnodes])
      .null .null

/-- The new node stands behind everything below it. -/
theorem Built.setDepend {heap mid : UseHeap} {address : Nat} {t : UseTree}
    (h : Built heap mid address t) {target : Option (List Char)} {option : UseOperator}
    {r : UseHeap × Nat} (hr : mid.useBuildRequiredUse target option = some r) :
    Built heap (r.1.setDepend r.2 address) r.2 (.node target option t .null) := by
  obtain ⟨haddr, id, hnodes⟩ := useBuildRequiredUse_nodes hr
  have hlen : (r.1.setDepend r.2 address).nodes.length = mid.nodes.length + 1 := by
    simp [UseHeap.setDepend, hnodes]
  have hsame : ∀ i < mid.nodes.length, (r.1.setDepend r.2 address).nodes[i]? = mid.nodes[i]? := by
    intro i hi
    have hne : r.2 ≠ i := by omega
    rw [UseHeap.setDepend, List.getElem?_modify_ne _ _ hne, hnodes, List.getElem?_append_left hi]
  have hnew : (r.1.setDepend r.2 address).nodes[mid.nodes.length]? = some {
      name := target, globalFlag := id, option := option, depend := some address,
      next := none } := by
    simp [UseHeap.setDepend, haddr, hnodes]
  have hle := h.length_le
  refine ⟨by omega, fun i hi => ?_, ?_⟩
  · rw [hsame i (by omega), h.old i hi]
  · rw [hlen, haddr]
    rw [haddr] at hnew hsame
    exact .node hle (Nat.lt_succ_self _) hnew (h.tree.frame fun i _ hi => hsame i hi) .null

/-- The item keeps what is below its first node and loses what was after it. -/
theorem Built.setNext {heap mid last : UseHeap} {first second : Nat} {s t : UseTree}
    (hs : Built heap mid first s) (ht : Built mid last second t) :
    Built heap (last.setNext first second) first (s.setNext t) := by
  have hlen : (last.setNext first second).nodes.length = last.nodes.length :=
    List.length_modify _ _ _
  have hother : ∀ i, i ≠ first → (last.setNext first second).nodes[i]? = last.nodes[i]? :=
    fun i hi => List.getElem?_modify_ne _ _ hi.symm
  have hle := hs.length_le
  have hle' := ht.length_le
  have htree := hs.tree
  cases htree with
  | @node _ _ _ node depend _ hlo hhi hnode hdepend _ =>
    have hfirst : (last.setNext first second).nodes[first]? =
        some { node with next := some second } := by
      rw [UseHeap.setNext, List.getElem?_modify_eq, ht.old first hhi, hnode]
      rfl
    refine ⟨by omega, fun i hi => ?_, ?_⟩
    · rw [hother i (by omega), ht.old i (by omega), hs.old i hi]
    · refine .node (n := { node with next := some second }) hlo (by omega) hfirst ?_ ?_
      · refine hdepend.frame fun i _ hi => ?_
        rw [hother i hi.ne, ht.old i (hi.trans hhi)]
      · refine (ht.tree.frame fun i hi _ => hother i (by omega)).mono (by omega) hlen.ge

mutual

/-- What the actions leave reachable. -/
def RequiredUseExpr.built : RequiredUseExpr → UseTree
  | .single s => s.built
  | .cons s rest => s.built.setNext rest.built

def RequiredUseSingle.built : RequiredUseSingle → UseTree
  | .useExpr e => .node (some e.target) e.operator .null .null
  | .depend sel e => .node sel.target sel.operator e.built .null
  | .group e => e.built

end

mutual

theorem requiredUseExpr_built {heap : UseHeap} {r : UseHeap × Nat} :
    ∀ {e : RequiredUseExpr}, heap.requiredUseExpr e = some r → Built heap r.1 r.2 e.built
  | .single s, h => requiredUseSingle_built (e := s) h
  | .cons s rest, h => by
    obtain ⟨first, hf, h⟩ := Option.bind_eq_some_iff.mp h
    obtain ⟨second, hs, rfl⟩ := Option.map_eq_some_iff.mp h
    exact (requiredUseSingle_built hf).setNext (requiredUseExpr_built hs)

theorem requiredUseSingle_built {heap : UseHeap} {r : UseHeap × Nat} :
    ∀ {e : RequiredUseSingle}, heap.requiredUseSingle e = some r → Built heap r.1 r.2 e.built
  | .useExpr e, h => built_node h
  | .depend sel e, h => by
    obtain ⟨third, ht, h⟩ := Option.bind_eq_some_iff.mp h
    obtain ⟨out, ho, rfl⟩ := Option.map_eq_some_iff.mp h
    exact (requiredUseExpr_built ht).setDepend ho
  | .group e, h => requiredUseExpr_built (e := e) h

end

namespace UseTree

theorem size_append (t u : UseTree) : (t.append u).size = t.size + u.size := by
  induction t with
  | null => exact (Nat.zero_add _).symm
  | node _ _ _ next _ ih =>
    simp only [append, size, ih]
    omega

/-- A list of one node loses nothing to the assignment. -/
theorem setNext_eq_append {t : UseTree} (h : t.width = 1) (u : UseTree) :
    t.setNext u = t.append u := by
  cases t with
  | null => exact absurd h (by decide)
  | node name option depend next =>
    cases next with
    | null => rfl
    | node => simp [width] at h

theorem width_eq_one {t : UseTree} (h : t.size ≤ (t.setNext null).size) (hne : t ≠ null) :
    t.width = 1 := by
  cases t with
  | null => exact absurd rfl hne
  | node name option depend next =>
    cases next with
    | null => rfl
    | node =>
      simp only [setNext, size] at h
      omega

theorem size_setNext {t : UseTree} (hne : t ≠ null) (u : UseTree) :
    (t.setNext u).size = (t.setNext null).size + u.size := by
  cases t with
  | null => exact absurd rfl hne
  | node name option depend next =>
    simp only [setNext, size]
    omega

theorem size_setNext_null (t : UseTree) : (t.setNext null).size ≤ t.size := by
  cases t with
  | null => exact le_rfl
  | node name option depend next =>
    simp only [setNext, size]
    omega

theorem setNext_ne_null {t : UseTree} (h : t ≠ null) (u : UseTree) : t.setNext u ≠ null := by
  cases t with
  | null => exact absurd rfl h
  | node => exact UseTree.noConfusion

end UseTree

mutual

theorem RequiredUseExpr.built_ne_null : ∀ e : RequiredUseExpr, e.built ≠ .null
  | .single s => s.built_ne_null
  | .cons s rest => UseTree.setNext_ne_null s.built_ne_null rest.built

theorem RequiredUseSingle.built_ne_null : ∀ e : RequiredUseSingle, e.built ≠ .null
  | .useExpr _ => UseTree.noConfusion
  | .depend _ _ => UseTree.noConfusion
  | .group e => e.built_ne_null

end

mutual

theorem RequiredUseExpr.built_size : ∀ e : RequiredUseExpr, e.built.size ≤ e.tree.size
  | .single s => s.built_size
  | .cons s rest => by
    have hs := s.built_size
    have hr := rest.built_size
    have hn := UseTree.size_setNext s.built_ne_null rest.built
    have hle := s.built.size_setNext_null
    rw [RequiredUseExpr.built, RequiredUseExpr.tree, hn, UseTree.size_append]
    omega

theorem RequiredUseSingle.built_size : ∀ e : RequiredUseSingle, e.built.size ≤ e.tree.size
  | .useExpr _ => le_rfl
  | .depend _ e => by
    have he := e.built_size
    simp only [RequiredUseSingle.built, RequiredUseSingle.tree, UseTree.size]
    omega
  | .group e => e.built_size

end

mutual

theorem RequiredUseExpr.built_eq : ∀ e : RequiredUseExpr, e.GroupsLast → e.built = e.tree
  | .single s, h => s.built_eq h
  | .cons s rest, h => by
    obtain ⟨hw, hs, hr⟩ := h
    rw [RequiredUseExpr.built, RequiredUseExpr.tree, s.built_eq hs, rest.built_eq hr]
    exact UseTree.setNext_eq_append hw _

theorem RequiredUseSingle.built_eq : ∀ e : RequiredUseSingle, e.GroupsLast → e.built = e.tree
  | .useExpr _, _ => rfl
  | .depend _ e, h => by
    rw [RequiredUseSingle.built, RequiredUseSingle.tree, e.built_eq h]
  | .group e, h => e.built_eq h

end

mutual

/-- A tree of the full size has lost nothing. -/
theorem RequiredUseExpr.groupsLast : ∀ e : RequiredUseExpr,
    e.tree.size ≤ e.built.size → e.GroupsLast
  | .single s, h => s.groupsLast h
  | .cons s rest, h => by
    have hs := s.built_size
    have hr := rest.built_size
    have hle := s.built.size_setNext_null
    rw [RequiredUseExpr.built, RequiredUseExpr.tree, UseTree.size_setNext s.built_ne_null,
      UseTree.size_append] at h
    have hsl : s.GroupsLast := s.groupsLast (by omega)
    refine ⟨?_, hsl, rest.groupsLast (by omega)⟩
    rw [← s.built_eq hsl]
    exact UseTree.width_eq_one (by omega) s.built_ne_null

theorem RequiredUseSingle.groupsLast : ∀ e : RequiredUseSingle,
    e.tree.size ≤ e.built.size → e.GroupsLast
  | .useExpr _, _ => trivial
  | .depend _ e, h => by
    simp only [RequiredUseSingle.built, RequiredUseSingle.tree, UseTree.size] at h
    exact e.groupsLast (by omega)
  | .group e, h => e.groupsLast h

end

theorem RequiredUseExpr.built_eq_iff (e : RequiredUseExpr) : e.built = e.tree ↔ e.GroupsLast :=
  ⟨fun h => e.groupsLast (by rw [h]), e.built_eq⟩

/-- The structure has every node of the text, in its order and below its
operator, exactly when no plain group of several nodes is followed by a sibling. -/
theorem walk_programRequiredUse_iff {heap heap' : UseHeap} {p : Option RequiredUseExpr}
    {root : Option Nat} (h : heap.programRequiredUse p = some (heap', root)) :
    walk heap'.nodes heap'.nodes.length root = some (programTree p) ↔ ProgramGroupsLast p := by
  cases p with
  | none =>
    obtain ⟨rfl, rfl⟩ := Prod.mk.inj (Option.some.inj h)
    have hw : walk heap.nodes heap.nodes.length none = some .null := by
      cases heap.nodes.length <;> rfl
    exact ⟨fun _ => by simp [ProgramGroupsLast], fun _ => hw⟩
  | some e =>
    obtain ⟨r, hr, heq⟩ := Option.map_eq_some_iff.mp h
    obtain ⟨rfl, rfl⟩ := Prod.mk.inj heq
    rw [(requiredUseExpr_built hr).walk_eq, Option.some.injEq, programTree, Option.map_some,
      Option.getD_some, e.built_eq_iff]
    simp [ProgramGroupsLast]

def literal (name : String) : RequiredUseSingle := .useExpr (.flag name.toList)

/-- `( a b ) c` -/
def groupThenFlag : RequiredUseExpr :=
  .cons (.group (.cons (literal "a") (.single (literal "b")))) (.single (literal "c"))

/-- `|| ( sna uxa )` -/
def leastOneOfTwo : RequiredUseExpr :=
  .single (.depend (.useSelect .leastOne) (.cons (literal "sna") (.single (literal "uxa"))))

theorem walk_leastOneOfTwo : ∃ heap' root,
    UseHeap.init.programRequiredUse (some leastOneOfTwo) = some (heap', root) ∧
      (walk heap'.nodes heap'.nodes.length root = some (programTree (some leastOneOfTwo)) ↔
        ProgramGroupsLast (some leastOneOfTwo)) := by
  obtain ⟨heap', root, h⟩ := FlagRoom.programRequiredUse_init (p := some leastOneOfTwo)
    (Lut.FewCollisions.of_length (by decide))
  exact ⟨heap', root, h, walk_programRequiredUse_iff h⟩

/-- In `( a b ) c` the node of `b` cannot be reached. -/
theorem groupThenFlag_loses : ∃ heap' root,
    UseHeap.init.programRequiredUse (some groupThenFlag) = some (heap', root) ∧
      walk heap'.nodes heap'.nodes.length root =
        some (.node (some ['a']) .enable .null (.node (some ['c']) .enable .null .null)) ∧
      walk heap'.nodes heap'.nodes.length root ≠ some (programTree (some groupThenFlag)) := by
  have hrun : (UseHeap.init.programRequiredUse (some groupThenFlag)).any (fun r =>
      decide (walk r.1.nodes r.1.nodes.length r.2 =
        some (.node (some ['a']) .enable .null (.node (some ['c']) .enable .null .null)))) = true := by
    decide +kernel
  obtain ⟨⟨heap', root⟩, h, hw⟩ := Option.any_eq_true _ _ |>.mp hrun
  have hw := of_decide_eq_true hw
  refine ⟨heap', root, h, hw, ?_⟩
  rw [hw]
  decide

end AutoGentoo
