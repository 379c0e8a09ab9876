import AutoGentoo.PackageChain

/-! The order of the ebuilds of a package, where `atom_version_compare` is a total
preorder on their versions. -/

namespace AutoGentoo

open ThreeWay StableInsertion

/-- `atom_version_compare (e->version, f->version) > 0` -/
def newer (e f : Ebuild) : Prop := (atomVersionCompare e.version f.version).any (0 < ·) = true

instance : DecidableRel newer := fun _ _ => inferInstanceAs (Decidable (_ = true))

/-- The three-way comparison is a total preorder on the versions of these ebuilds. -/
structure Preordered (s : Set Ebuild) : Prop where
  opposite : ∀ a ∈ s, ∀ b ∈ s,
    Opposite (atomVersionCompare a.version b.version) (atomVersionCompare b.version a.version)
  transitive : ∀ a ∈ s, ∀ b ∈ s, ∀ c ∈ s, Transitive (atomVersionCompare a.version b.version)
    (atomVersionCompare b.version c.version) (atomVersionCompare a.version c.version)

theorem newer_iff {e f : Ebuild} {v : Int} (h : atomVersionCompare e.version f.version = some v) :
    newer e f ↔ 0 < v := by
  rw [newer, h, Option.any_some, decide_eq_true_eq]

theorem same_iff {e f : Ebuild} {v w : Int} (h : atomVersionCompare e.version f.version = some v)
    (h' : atomVersionCompare f.version e.version = some w) (hopposite : v.sign = -w.sign) :
    Same newer e f ↔ v = 0 := by
  rw [Same, newer_iff h, newer_iff h']
  have hv := Int.sign_eq_zero_iff_zero (a := v)
  have hw := Int.sign_eq_one_iff_pos (a := w)
  have hneg := Int.sign_eq_neg_one_iff_neg (a := v)
  omega

namespace Preordered

variable {s : Set Ebuild} {e : Ebuild}

theorem compare (h : Preordered s) {f : Ebuild} (he : e ∈ s) (hf : f ∈ s) :
    ∃ v w : Int, atomVersionCompare e.version f.version = some v ∧
      atomVersionCompare f.version e.version = some w ∧ v.sign = -w.sign := h.opposite e he f hf

theorem weakOrderOn (h : Preordered s) : WeakOrderOn newer s := by
  constructor
  · intro a ha b hb hab hba
    obtain ⟨v, w, hv, hw, hopposite⟩ := h.compare ha hb
    have hpos := (newer_iff hv).mp hab
    have hpos' := (newer_iff hw).mp hba
    rw [Int.sign_eq_one_of_pos hpos, Int.sign_eq_one_of_pos hpos'] at hopposite
    exact absurd hopposite (by decide)
  · intro a ha b hb c hc hab hbc
    obtain ⟨u, v, w, hu, hv, hw, htrans⟩ := h.transitive a ha b hb c hc
    rw [newer_iff hu] at hab
    rw [newer_iff hv] at hbc
    rw [newer_iff hw]
    have hle := htrans (by omega) (by omega)
    omega

/-- Where all comparisons are defined the walk inserts behind what is not older. -/
theorem addLoop_eq (h : Preordered s) (he : e ∈ s) {es : List Ebuild} (hes : ∀ f ∈ es, f ∈ s)
    (hnew : e.addr ∉ es.map Ebuild.addr) :
    Package.addLoop e es = some (.ok (es.orderedInsert newer e)) := by
  induction es with
  | nil => rfl
  | cons f es ih =>
    rw [List.map_cons, List.mem_cons, not_or] at hnew
    obtain ⟨v, w, hv, -, -⟩ := h.compare he (hes f List.mem_cons_self)
    have hrest := ih (fun x hx => hes x (List.mem_cons_of_mem f hx)) hnew.2
    rw [Package.addLoop, if_neg hnew.1, hrest, hv]
    simp only [Option.bind_eq_bind, Option.bind_some]
    by_cases hpos : 0 < v
    · rw [if_pos hpos, List.orderedInsert_cons_of_le newer es ((newer_iff hv).mpr hpos)]
      rfl
    · rw [if_neg hpos, List.orderedInsert_of_not_le newer es (fun hn => hpos ((newer_iff hv).mp hn))]
      rfl

end Preordered

namespace PackageMemory

def ebuildAt (memory : PackageMemory) (x : Nat) : Option Ebuild :=
  (memory.objects x).map EbuildObject.ebuild

def Free (memory : PackageMemory) (x : Nat) : Prop :=
  ∀ object ∈ memory.objects x, object.package = 0

/-- The ebuilds that a package accepted, in the order of the calls. -/
def accepted (memory : PackageMemory) (p : Nat) (log : List (AddCall × Except AddError Unit)) :
    List Ebuild :=
  log.filterMap fun r => if r.1.self = p ∧ r.2.isOk then r.1.arg.bind memory.ebuildAt else none

/-- The package exists, and so does the ebuild, whose version is among those of `s`. -/
def Live (memory : PackageMemory) (s : Set Ebuild) (call : AddCall) : Prop :=
  memory.heads call.self ≠ none ∧ ∀ x ∈ call.arg, ∃ e ∈ s, memory.ebuildAt x = some e

theorem free_iff {memory : PackageMemory} {x : Nat} :
    memory.Free x ↔ ∀ p ∈ (memory.objects x).map EbuildObject.package, p = 0 := by
  rw [Free]
  cases memory.objects x <;> simp

theorem SameEbuilds.trans {a b c : PackageMemory} (h : SameEbuilds a b) (h' : SameEbuilds b c) :
    SameEbuilds a c :=
  ⟨fun x => (h'.1 x).trans (h.1 x), fun p => (h'.2 p).trans (h.2 p)⟩

theorem SameEbuilds.accepted {a b : PackageMemory} (h : SameEbuilds a b) : b.accepted = a.accepted := by
  have hsame : b.ebuildAt = a.ebuildAt := funext h.1
  funext p log
  rw [PackageMemory.accepted, PackageMemory.accepted, hsame]

theorem SameEbuilds.live {a b : PackageMemory} (h : SameEbuilds a b) {s : Set Ebuild} {call : AddCall}
    (hl : a.Live s call) : b.Live s call := by
  have hsame : b.ebuildAt = a.ebuildAt := funext h.1
  rw [Live, hsame, Ne, h.2]
  exact hl

theorem accepted_cons (memory : PackageMemory) (p : Nat) (r : AddCall × Except AddError Unit)
    (log : List (AddCall × Except AddError Unit)) :
    memory.accepted p (r :: log) = memory.accepted p [r] ++ memory.accepted p log := by
  rw [PackageMemory.accepted, ← List.singleton_append, List.filterMap_append]
  rfl

theorem Live.accepted {memory : PackageMemory} {s : Set Ebuild} {call : AddCall}
    (h : memory.Live s call) {outcome : Except AddError Unit} {p : Nat} {e : Ebuild}
    (he : e ∈ memory.accepted p [(call, outcome)]) : e ∈ s := by
  obtain ⟨r, hr, he⟩ := List.mem_filterMap.mp he
  rw [List.mem_singleton.mp hr] at he
  split_ifs at he with htook
  obtain ⟨x, hx, hebuild⟩ := Option.bind_eq_some_iff.mp he
  obtain ⟨f, hf, hfebuild⟩ := h.2 x hx
  rw [Option.some.inj (hebuild.symm.trans hfebuild)]
  exact hf

theorem addEbuild_error {memory memory' : PackageMemory} {fuel : Nat} {call : AddCall} {e : AddError}
    (h : memory.addEbuild fuel call = some (memory', .error e)) : memory' = memory := by
  obtain ⟨p, arg⟩ := call
  cases arg with
  | none => exact (Prod.mk.inj (Option.some.inj h)).1.symm
  | some x =>
    simp only [addEbuild, Option.bind_eq_bind] at h
    obtain ⟨object, -, h⟩ := Option.bind_eq_some_iff.mp h
    split_ifs at h with howned
    · exact (Prod.mk.inj (Option.some.inj h)).1.symm
    · obtain ⟨head, -, h⟩ := Option.bind_eq_some_iff.mp h
      obtain ⟨r, -, h⟩ := Option.bind_eq_some_iff.mp h
      cases r with
      | error error => exact (Prod.mk.inj (Option.some.inj h)).1.symm
      | ok r => exact absurd (congrArg Prod.snd (Option.some.inj h)) (by simp)

/-- What one call does to the lists. -/
structure Called (memory memory' : PackageMemory) (taken : Nat → List Ebuild) (call : AddCall)
    (outcome : Except AddError Unit) : Prop where
  same : SameEbuilds memory memory'
  holds : Holds memory' fun p => insertAll newer (taken p) (memory.accepted p [(call, outcome)])
  ok_iff : ∀ x ∈ call.arg, outcome = .ok () ↔ memory.Free x
  free : ∀ y, memory'.Free y ↔ memory.Free y ∧ call.arg ≠ some y

theorem accepted_error (memory : PackageMemory) (p : Nat) (call : AddCall) (e : AddError) :
    memory.accepted p [(call, .error e)] = [] := by
  simp [PackageMemory.accepted, Except.isOk, Except.toBool]

theorem Holds.rejected {memory : PackageMemory} {taken : Nat → List Ebuild} (h : Holds memory taken)
    {call : AddCall} (hfree : ∀ x ∈ call.arg, ¬ memory.Free x) (e : AddError) :
    Called memory memory taken call (.error e) := by
  refine ⟨⟨fun _ => rfl, fun _ => Iff.rfl⟩, ?_, fun x hx => iff_of_false (by simp) (hfree x hx), fun y => ?_⟩
  · simp only [accepted_error]
    exact h
  · exact ⟨fun hy => ⟨hy, fun he => hfree y he hy⟩, And.left⟩

theorem Holds.call {memory : PackageMemory} {taken : Nat → List Ebuild} (h : Holds memory taken)
    {s : Set Ebuild} (hpre : Preordered s) (htaken : ∀ p, ∀ e ∈ taken p, e ∈ s) {call : AddCall}
    (hlive : memory.Live s call) {fuel : Nat} (hfuel : (taken call.self).length < fuel) :
    ∃ memory' outcome, memory.addEbuild fuel call = some (memory', outcome) ∧
      Called memory memory' taken call outcome := by
  obtain ⟨p, arg⟩ := call
  cases arg with
  | none => exact ⟨memory, _, rfl, h.rejected (by simp) _⟩
  | some x =>
    obtain ⟨hp, hx⟩ := hlive
    obtain ⟨head, hhead⟩ := Option.ne_none_iff_exists'.mp hp
    obtain ⟨e, he, hebuild⟩ := hx x rfl
    obtain ⟨object, hobject, rfl⟩ := Option.map_eq_some_iff.mp hebuild
    have hfreeIff : memory.Free x ↔ object.package = 0 := by
      rw [Free, hobject]
      simp
    by_cases hfree : object.package = 0
    · have hnew : object.ebuild.addr ∉ (taken p).map Ebuild.addr := by
        rw [(h.addr x object hobject).1, h.mem_iff hhead hobject, hfree]
        exact (h.heads p head hhead).1.symm
      obtain ⟨memory', hadd, hsame, hholds, hpackages⟩ := h.addEbuild hhead hobject hfree hfuel
        (hpre.addLoop_eq he (htaken p) hnew)
      refine ⟨memory', .ok (), hadd, hsame, ?_, ?_, fun y => ?_⟩
      · have htook : (fun q => insertAll newer (taken q) (memory.accepted q [(⟨p, some x⟩, .ok ())])) =
            Function.update taken p ((taken p).orderedInsert newer object.ebuild) := by
          funext q
          by_cases hq : q = p
          · rw [hq, Function.update_self]
            simp [PackageMemory.accepted, Except.isOk, Except.toBool, hebuild, insertAll]
          · rw [Function.update_of_ne hq]
            simp [PackageMemory.accepted, Ne.symm hq, insertAll]
        rw [htook]
        exact hholds
      · intro y hy
        obtain rfl : x = y := Option.some.inj hy
        exact iff_of_true rfl (hfreeIff.mpr hfree)
      · rw [free_iff, free_iff, hpackages y]
        by_cases hyx : y = x
        · have hp0 := (h.heads p head hhead).1
          simp [hyx, hobject, hp0]
        · simp [hyx, Ne.symm hyx]
    · refine ⟨memory, .error (.runtimeError .alreadyAdded), ?_, h.rejected ?_ _⟩
      · simp only [PackageMemory.addEbuild, hobject, Option.bind_eq_bind, Option.bind_some]
        rw [if_pos hfree]
        rfl
      · intro y hy
        obtain rfl : x = y := Option.some.inj hy
        rw [hfreeIff]
        exact hfree

/-- A call is accepted when no call before it has had the ebuild. -/
def FirstCome (memory : PackageMemory) (log : List (AddCall × Except AddError Unit)) : Prop :=
  ∀ before call outcome after, log = before ++ (call, outcome) :: after → ∀ x ∈ call.arg,
    (outcome = .ok () ↔ memory.Free x ∧ ∀ r ∈ before, r.1.arg ≠ some x)

theorem Called.firstCome {memory memory' : PackageMemory} {taken : Nat → List Ebuild} {call : AddCall}
    {outcome : Except AddError Unit} (h : Called memory memory' taken call outcome)
    {log : List (AddCall × Except AddError Unit)} (hlog : FirstCome memory' log) :
    FirstCome memory ((call, outcome) :: log) := by
  intro before call' outcome' after he x hx
  cases before with
  | nil =>
    obtain ⟨hcall, -⟩ := List.cons.inj he
    obtain ⟨rfl, rfl⟩ := Prod.mk.inj hcall
    simp [h.ok_iff x hx]
  | cons r before =>
    obtain ⟨hcall, hrest⟩ := List.cons.inj he
    rw [hlog before call' outcome' after hrest x hx, h.free x, ← hcall]
    simp [and_assoc]

theorem Holds.calls {memory : PackageMemory} {taken : Nat → List Ebuild} (h : Holds memory taken)
    {s : Set Ebuild} (hpre : Preordered s) (htaken : ∀ p, ∀ e ∈ taken p, e ∈ s) {calls : List AddCall}
    (hlive : ∀ call ∈ calls, memory.Live s call) {fuel : Nat}
    (hfuel : ∀ p, (taken p).length + calls.length < fuel + 1) :
    ∃ memory' log, memory.addEbuilds fuel calls = some (memory', log) ∧ log.map Prod.fst = calls ∧
      SameEbuilds memory memory' ∧ FirstCome memory log ∧ (∀ p, ∀ e ∈ memory.accepted p log, e ∈ s) ∧
      Holds memory' fun p => insertAll newer (taken p) (memory.accepted p log) := by
  induction calls generalizing memory taken with
  | nil =>
    refine ⟨memory, [], rfl, rfl, ⟨fun _ => rfl, fun _ => Iff.rfl⟩, ?_, by simp [PackageMemory.accepted], h⟩
    intro before call outcome after he
    exact absurd he (by simp)
  | cons call calls ih =>
    have hcall := hlive call List.mem_cons_self
    have hroom : (taken call.self).length < fuel := by
      have := hfuel call.self
      rw [List.length_cons] at this
      omega
    obtain ⟨mid, outcome, hadd, hcalled⟩ := h.call hpre htaken hcall hroom
    have hone : ∀ p, ∀ e ∈ memory.accepted p [(call, outcome)], e ∈ s :=
      fun p e he => hcall.accepted he
    have hmid : ∀ p, ∀ e ∈ insertAll newer (taken p) (memory.accepted p [(call, outcome)]), e ∈ s := by
      intro p e he
      rcases List.mem_append.mp ((perm_insertAll _ _).mem_iff.mp he) with he | he
      · exact hone p e he
      · exact htaken p e he
    have hlength : ∀ p, (insertAll newer (taken p) (memory.accepted p [(call, outcome)])).length +
        calls.length < fuel + 1 := by
      intro p
      have hle : (memory.accepted p [(call, outcome)]).length ≤ 1 := List.length_filterMap_le _ _
      have := hfuel p
      rw [(perm_insertAll _ _).length_eq, List.length_append]
      rw [List.length_cons] at this
      omega
    obtain ⟨memory', log, hrun, hcalls, hsame, hfirst, hall, hholds⟩ := ih hcalled.holds hmid
      (fun c hc => hcalled.same.live (hlive c (List.mem_cons_of_mem call hc))) hlength
    rw [hcalled.same.accepted] at hall hholds
    refine ⟨memory', (call, outcome) :: log, ?_, ?_, hcalled.same.trans hsame, hcalled.firstCome hfirst,
      fun p e he => ?_, ?_⟩
    · rw [addEbuilds, hadd, Option.bind_some, hrun, Option.map_some]
    · rw [List.map_cons, hcalls]
    · rw [accepted_cons] at he
      rcases List.mem_append.mp he with he | he
      · exact hone p e he
      · exact hall p e he
    · have htook : (fun p => insertAll newer (taken p) (memory.accepted p ((call, outcome) :: log))) =
          fun p => insertAll newer (insertAll newer (taken p) (memory.accepted p [(call, outcome)]))
            (memory.accepted p log) := by
        funext p
        rw [accepted_cons, insertAll, List.foldl_append]
        rfl
      rw [htook]
      exact hholds

/-- New packages and ebuilds. -/
structure Fresh (memory : PackageMemory) : Prop where
  objects : ∀ x object, memory.objects x = some object →
    object.ebuild.addr = x ∧ x ≠ 0 ∧ object.package = 0
  heads : ∀ p head, memory.heads p = some head → p ≠ 0 ∧ head = 0

theorem Fresh.holds {memory : PackageMemory} (h : memory.Fresh) : Holds memory fun _ => [] where
  addr x object hx := ⟨(h.objects x object hx).1, (h.objects x object hx).2.1⟩
  heads := h.heads
  nodup _ := List.nodup_nil
  package x object hx p hp := by
    obtain ⟨head, hhead⟩ := Option.ne_none_iff_exists'.mp hp
    rw [(h.objects x object hx).2.2]
    exact iff_of_false (h.heads p head hhead).1.symm List.not_mem_nil
  known x object hx hne := absurd (h.objects x object hx).2.2 hne

/-- The list from `Package.ebuilds`. -/
def Chain (memory : PackageMemory) (p : Nat) (es : List Ebuild) : Prop :=
  ∃ head, memory.heads p = some head ∧ Linked memory.objects head es 0

theorem Linked.unique {objects : Nat → Option EbuildObject} {p : Nat} {l m : List Ebuild}
    (h : Linked objects p l 0) (h' : Linked objects p m 0) : l = m := by
  induction l generalizing p m with
  | nil =>
    cases m with
    | nil => rfl
    | cons f m => exact absurd h h'.2.1
  | cons e l ih =>
    obtain ⟨-, hp, object, hobject, rfl, hl⟩ := h
    cases m with
    | nil => exact absurd h' hp
    | cons f m =>
      obtain ⟨-, -, object', hobject', rfl, hm⟩ := h'
      obtain rfl := Option.some.inj (hobject.symm.trans hobject')
      rw [ih hl hm]

theorem Chain.unique {memory : PackageMemory} {p : Nat} {l m : List Ebuild} (h : memory.Chain p l)
    (h' : memory.Chain p m) : l = m := by
  obtain ⟨head, hhead, hl⟩ := h
  obtain ⟨head', hhead', hm⟩ := h'
  obtain rfl := Option.some.inj (hhead.symm.trans hhead')
  exact hl.unique hm

/-- What the list is to be when the ebuilds were added in this order. -/
structure Listed (added es : List Ebuild) : Prop where
  perm : es.Perm added
  nodup : es.Nodup
  newestFirst : es.Pairwise fun e f => ∃ v, atomVersionCompare e.version f.version = some v ∧ 0 ≤ v
  inOrder : ∀ e ∈ es, es.filter (fun f => atomVersionCompare e.version f.version = some 0) =
    added.filter fun f => atomVersionCompare e.version f.version = some 0

theorem listed_insertAll {s : Set Ebuild} (hpre : Preordered s) {added : List Ebuild}
    (hadded : ∀ e ∈ added, e ∈ s) (hnodup : (insertAll newer [] added).Nodup) :
    Listed added (insertAll newer [] added) := by
  have hmem : ∀ e ∈ insertAll newer [] added, e ∈ s := fun e he => hadded e (mem_insertAll.mp he)
  refine ⟨?_, hnodup, ?_, fun e he => ?_⟩
  · have hperm := perm_insertAll (r := newer) [] added
    rwa [List.append_nil] at hperm
  · have hordered := ordered_insertAll hpre.weakOrderOn hadded
    refine hordered.imp_of_mem fun {e f} he hf hnewer => ?_
    obtain ⟨v, w, hv, hw, hopposite⟩ := hpre.compare (hmem e he) (hmem f hf)
    rw [newer_iff hw] at hnewer
    have hneg := Int.sign_eq_neg_one_iff_neg (a := v)
    have hpos := Int.sign_eq_one_iff_pos (a := w)
    exact ⟨v, hv, by omega⟩
  · have hsame : ∀ f ∈ s, decide (atomVersionCompare e.version f.version = some 0) = decide (Same newer e f) := by
      intro f hf
      obtain ⟨v, w, hv, hw, hopposite⟩ := hpre.compare (hmem e he) hf
      rw [decide_eq_decide, same_iff hv hw hopposite, hv, Option.some_inj]
    rw [List.filter_congr fun f hf => hsame f (hmem f hf), List.filter_congr fun f hf => hsame f (hadded f hf)]
    exact filter_insertAll hpre.weakOrderOn hadded (hmem e he)

theorem Fresh.calls {memory : PackageMemory} (h : memory.Fresh) {s : Set Ebuild} (hpre : Preordered s)
    {calls : List AddCall} (hlive : ∀ call ∈ calls, memory.Live s call) {fuel : Nat}
    (hfuel : calls.length ≤ fuel) :
    ∃ memory' log, memory.addEbuilds fuel calls = some (memory', log) ∧ log.map Prod.fst = calls ∧
      SameEbuilds memory memory' ∧ FirstCome memory log ∧ ∀ p, (∀ e ∈ memory.accepted p log, e ∈ s) ∧
        (insertAll newer [] (memory.accepted p log)).Nodup ∧ (memory.heads p ≠ none →
          memory'.Chain p (insertAll newer [] (memory.accepted p log))) := by
  have hroom : ∀ p : Nat, ((fun _ => []) p : List Ebuild).length + calls.length < fuel + 1 := by
    intro p
    rw [List.length_nil]
    omega
  obtain ⟨memory', log, hrun, hcalls, hsame, hfirst, hall, hholds⟩ :=
    h.holds.calls hpre (by simp) hlive hroom
  refine ⟨memory', log, hrun, hcalls, hsame, hfirst, fun p => ⟨hall p, (hholds.nodup p).of_map, fun hp => ?_⟩⟩
  rw [Ne, ← hsame.2 p] at hp
  obtain ⟨head, hhead⟩ := Option.ne_none_iff_exists'.mp hp
  exact ⟨head, hhead, (hholds.heads p head hhead).2⟩

/-- Without equal versions the list does not depend on the order of the additions. -/
theorem insertAll_eq_of_perm {s : Set Ebuild} (hpre : Preordered s) {added added' : List Ebuild}
    (hadded : ∀ e ∈ added, e ∈ s) (hperm : added'.Perm added)
    (hunequal : added.Pairwise fun e f => atomVersionCompare e.version f.version ≠ some 0) :
    insertAll newer [] added' = insertAll newer [] added := by
  have hadded' : ∀ e ∈ added', e ∈ s := fun e he => hadded e (hperm.mem_iff.mp he)
  have hperm' : (insertAll newer [] added').Perm (insertAll newer [] added) := by
    have hleft := perm_insertAll (r := newer) [] added'
    have hright := perm_insertAll (r := newer) [] added
    rw [List.append_nil] at hleft hright
    exact hleft.trans (hperm.trans hright.symm)
  have hapart : added.Pairwise fun e f => ¬ Same newer e f := by
    refine hunequal.imp_of_mem fun {e f} he hf hne hsame => hne ?_
    obtain ⟨v, w, hv, hw, hopposite⟩ := hpre.compare (hadded e he) (hadded f hf)
    rw [hv, (same_iff hv hw hopposite).mp hsame]
  refine Ordered.unique (ordered_insertAll hpre.weakOrderOn hadded')
    (ordered_insertAll hpre.weakOrderOn hadded) hperm' fun e he f hf hsame => ?_
  by_contra hne
  have he := hperm.mem_iff.mp (mem_insertAll.mp he)
  have hf := hperm.mem_iff.mp (mem_insertAll.mp hf)
  have hsymm : Std.Symm fun e f : Ebuild => ¬ Same newer e f := ⟨fun a b hab hba => hab hba.symm⟩
  exact hapart.forall he hf hne hsame

/-- Newest first, equal versions in the order of addition, and no two orders of addition
differ where no two versions are equal. -/
theorem ebuilds_ordered {memory : PackageMemory} (hfresh : memory.Fresh) {s : Set Ebuild}
    (hpre : Preordered s) {calls : List AddCall} (hlive : ∀ call ∈ calls, memory.Live s call)
    {fuel : Nat} (hfuel : calls.length ≤ fuel) :
    ∃ memory' log, memory.addEbuilds fuel calls = some (memory', log) ∧ log.map Prod.fst = calls ∧
      FirstCome memory log ∧
      (∀ p, memory.heads p ≠ none → ∃ es, memory'.Chain p es ∧ Listed (memory.accepted p log) es) ∧
      (∀ m m' fuel call e, addEbuild m fuel call = some (m', .error e) → m' = m) ∧
      ∀ calls' fuel' other log', (∀ call ∈ calls', memory.Live s call) → calls'.length ≤ fuel' →
        memory.addEbuilds fuel' calls' = some (other, log') → ∀ p,
          (memory.accepted p log').Perm (memory.accepted p log) →
          (memory.accepted p log).Pairwise (fun e f => atomVersionCompare e.version f.version ≠ some 0) →
          ∀ es, memory'.Chain p es → other.Chain p es := by
  obtain ⟨memory', log, hrun, hcalls, hsame, hfirst, hlists⟩ := hfresh.calls hpre hlive hfuel
  refine ⟨memory', log, hrun, hcalls, hfirst, fun p hp => ?_, fun _ _ _ _ _ => addEbuild_error, ?_⟩
  · obtain ⟨hall, hnodup, hchain⟩ := hlists p
    exact ⟨_, hchain hp, listed_insertAll hpre hall hnodup⟩
  · intro calls' fuel' other log' hlive' hfuel' hrun' p hperm hunequal es hes
    obtain ⟨other', log'', hrun'', -, -, -, hlists'⟩ := hfresh.calls hpre hlive' hfuel'
    obtain ⟨rfl, rfl⟩ := Prod.mk.inj (Option.some.inj (hrun'.symm.trans hrun''))
    have hp : memory.heads p ≠ none := by
      obtain ⟨head, hhead, -⟩ := hes
      rw [Ne, ← hsame.2 p, hhead]
      simp
    rw [hes.unique ((hlists p).2.2 hp), ← insertAll_eq_of_perm hpre (hlists p).1 hperm hunequal]
    exact (hlists' p).2.2 hp

/-- Two ebuilds of a package without any. -/
def twoEbuilds : PackageMemory where
  objects := fun x =>
    if x = 1 then some { ebuild := fooEbuild 1 Package.foo10, package := 0, older := 0 }
    else if x = 2 then some { ebuild := fooEbuild 2 Package.foo20, package := 0, older := 0 }
    else none
  heads := fun p => if p = 1 then some 0 else none

theorem twoEbuilds_fresh : twoEbuilds.Fresh := by
  constructor
  · intro x object hx
    simp only [twoEbuilds] at hx
    split_ifs at hx with h1 h2
    · rw [← Option.some.inj hx, h1]
      exact ⟨rfl, by decide, rfl⟩
    · rw [← Option.some.inj hx, h2]
      exact ⟨rfl, by decide, rfl⟩
  · intro p head hp
    simp only [twoEbuilds] at hp
    split_ifs at hp with h1
    exact ⟨by omega, (Option.some.inj hp).symm⟩

theorem foo_preordered : Preordered {fooEbuild 1 Package.foo10, fooEbuild 2 Package.foo20} := by
  have h11 : atomVersionCompare (fooEbuild 1 Package.foo10).version (fooEbuild 1 Package.foo10).version =
      some 0 := by decide
  have h12 : atomVersionCompare (fooEbuild 1 Package.foo10).version (fooEbuild 2 Package.foo20).version =
      some (-1) := by decide
  have h21 : atomVersionCompare (fooEbuild 2 Package.foo20).version (fooEbuild 1 Package.foo10).version =
      some 1 := by decide
  have h22 : atomVersionCompare (fooEbuild 2 Package.foo20).version (fooEbuild 2 Package.foo20).version =
      some 0 := by decide
  constructor
  · rintro a (rfl | rfl) b (rfl | rfl)
    · exact ⟨0, 0, h11, h11, rfl⟩
    · exact ⟨-1, 1, h12, h21, rfl⟩
    · exact ⟨1, -1, h21, h12, rfl⟩
    · exact ⟨0, 0, h22, h22, rfl⟩
  · rintro a (rfl | rfl) b (rfl | rfl) c (rfl | rfl)
    · exact ⟨0, 0, 0, h11, h11, h11, by decide⟩
    · exact ⟨0, -1, -1, h11, h12, h12, by decide⟩
    · exact ⟨-1, 1, 0, h12, h21, h11, by decide⟩
    · exact ⟨-1, 0, -1, h12, h22, h12, by decide⟩
    · exact ⟨1, 0, 1, h21, h11, h21, by decide⟩
    · exact ⟨1, -1, 0, h21, h12, h22, by decide⟩
    · exact ⟨0, 1, 1, h22, h21, h21, by decide⟩
    · exact ⟨0, 0, 0, h22, h22, h22, by decide⟩

/-- The older ebuild is added before the newer one and once more after it. -/
theorem ebuilds_ordered_twice : ∃ memory' log es,
    twoEbuilds.addEbuilds 3 [⟨1, some 1⟩, ⟨1, some 2⟩, ⟨1, some 1⟩] = some (memory', log) ∧
      memory'.Chain 1 es ∧ Listed (twoEbuilds.accepted 1 log) es := by
  have hlive : ∀ call ∈ [(⟨1, some 1⟩ : AddCall), ⟨1, some 2⟩, ⟨1, some 1⟩],
      twoEbuilds.Live {fooEbuild 1 Package.foo10, fooEbuild 2 Package.foo20} call := by
    have hone : twoEbuilds.Live {fooEbuild 1 Package.foo10, fooEbuild 2 Package.foo20} ⟨1, some 1⟩ := by
      refine ⟨by decide, fun x hx => ?_⟩
      obtain rfl : 1 = x := Option.some.inj hx
      exact ⟨_, .inl rfl, rfl⟩
    have htwo : twoEbuilds.Live {fooEbuild 1 Package.foo10, fooEbuild 2 Package.foo20} ⟨1, some 2⟩ := by
      refine ⟨by decide, fun x hx => ?_⟩
      obtain rfl : 2 = x := Option.some.inj hx
      exact ⟨_, .inr rfl, rfl⟩
    intro call hcall
    simp only [List.mem_cons, List.not_mem_nil, or_false] at hcall
    rcases hcall with rfl | rfl | rfl
    · exact hone
    · exact htwo
    · exact hone
  obtain ⟨memory', log, hrun, -, -, hlists, -⟩ :=
    ebuilds_ordered twoEbuilds_fresh foo_preordered hlive (le_refl 3)
  obtain ⟨es, hchain, hlisted⟩ := hlists 1 (by decide)
  exact ⟨memory', log, es, hrun, hchain, hlisted⟩

end PackageMemory

end AutoGentoo
