import AutoGentoo.Package
import AutoGentoo.StableInsertion
import Mathlib.Logic.Function.Basic

/-! The ebuilds of packages as objects linked through `older`, and `add_ebuild` with its
assignments. The links of a package spell the list that `Package.addLoop` makes. -/

namespace AutoGentoo

/-- An ebuild with the fields that `add_ebuild` sets; 0 is NULL. -/
structure EbuildObject where
  ebuild : Ebuild
  package : Nat
  older : Nat
  deriving DecidableEq, Repr

/-- The ebuilds, and the field `ebuilds` of the packages, by their addresses. -/
structure PackageMemory where
  objects : Nat → Option EbuildObject
  heads : Nat → Option Nat

inductive AddError
  | typeError
  | runtimeError (e : AddEbuildError)
  deriving DecidableEq, Repr

/-- A call on the package `self`, with `none` for whatever is no single ebuild. -/
structure AddCall where
  self : Nat
  arg : Option Nat
  deriving DecidableEq, Repr

namespace PackageMemory

def setObject (memory : PackageMemory) (x : Nat) (f : EbuildObject → EbuildObject) : PackageMemory :=
  { memory with objects := Function.update memory.objects x ((memory.objects x).map f) }

def setHead (memory : PackageMemory) (p head : Nat) : PackageMemory :=
  { memory with heads := Function.update memory.heads p (some head) }

/-- The loop, which ends with `last` and `current`. -/
def walk (memory : PackageMemory) (x : Nat) (version : Option AtomVersion) :
    Nat → Nat → Nat → Option (Except AddEbuildError (Nat × Nat))
  | 0, _, _ => none
  | fuel + 1, last, current =>
    if current = 0 then some (.ok (last, current))
    else if x = current then some (.error .sameEbuild)
    else
      (memory.objects current).bind fun object =>
        (atomVersionCompare version object.ebuild.version).bind fun compare =>
          if 0 < compare then some (.ok (last, current)) else walk memory x version fuel current object.older

/-- The assignments behind the loop. -/
def link (memory : PackageMemory) (self x last current : Nat) : PackageMemory :=
  let linked :=
    if last = 0 then (memory.setHead self x).setObject x fun object => { object with older := current }
    else
      (memory.setObject x fun object => { object with older := current }).setObject last
        fun object => { object with older := x }
  linked.setObject x fun object => { object with package := self }

def addEbuild (memory : PackageMemory) (fuel : Nat) (call : AddCall) :
    Option (PackageMemory × Except AddError Unit) :=
  match call.arg with
  | none => some (memory, .error .typeError)
  | some x => do
    let object ← memory.objects x
    if object.package ≠ 0 then return (memory, .error (.runtimeError .alreadyAdded))
    let head ← memory.heads call.self
    match ← memory.walk x object.ebuild.version fuel 0 head with
    | .error e => return (memory, .error (.runtimeError e))
    | .ok (last, current) => return (memory.link call.self x last current, .ok ())

/-- The calls one after the other, with what became of each. -/
def addEbuilds (fuel : Nat) : PackageMemory → List AddCall →
    Option (PackageMemory × List (AddCall × Except AddError Unit))
  | memory, [] => some (memory, [])
  | memory, call :: calls =>
    (memory.addEbuild fuel call).bind fun r =>
      (addEbuilds fuel r.1 calls).map fun rest => (rest.1, (call, r.2) :: rest.2)

/-- From `p` the links lead over the ebuilds of the list to `q`. -/
def Linked (objects : Nat → Option EbuildObject) : Nat → List Ebuild → Nat → Prop
  | p, [], q => p = q
  | p, e :: l, q => e.addr = p ∧ p ≠ 0 ∧ ∃ object, objects p = some object ∧ object.ebuild = e ∧
    Linked objects object.older l q

section Linked

variable {objects objects' : Nat → Option EbuildObject} {p q t : Nat} {l m : List Ebuild}

theorem linked_append : Linked objects p (l ++ m) q ↔ ∃ t, Linked objects p l t ∧ Linked objects t m q := by
  induction l generalizing p with
  | nil => simp [Linked]
  | cons e l ih =>
    simp only [List.cons_append, Linked, ih]
    constructor
    · rintro ⟨haddr, hp, object, hobject, he, t, hl, hm⟩
      exact ⟨t, ⟨haddr, hp, object, hobject, he, hl⟩, hm⟩
    · rintro ⟨t, ⟨haddr, hp, object, hobject, he, hl⟩, hm⟩
      exact ⟨haddr, hp, object, hobject, he, t, hl, hm⟩

theorem Linked.frame (h : Linked objects p l q) (hsame : ∀ e ∈ l, objects' e.addr = objects e.addr) :
    Linked objects' p l q := by
  induction l generalizing p with
  | nil => exact h
  | cons e l ih =>
    obtain ⟨haddr, hp, object, hobject, he, hl⟩ := h
    have hhead := hsame e List.mem_cons_self
    rw [haddr, hobject] at hhead
    exact ⟨haddr, hp, object, hhead, he, ih hl fun x hx => hsame x (List.mem_cons_of_mem e hx)⟩

theorem Linked.object (h : Linked objects p l q) {e : Ebuild} (he : e ∈ l) :
    e.addr ≠ 0 ∧ ∃ object, objects e.addr = some object ∧ object.ebuild = e := by
  induction l generalizing p with
  | nil => exact absurd he List.not_mem_nil
  | cons x l ih =>
    obtain ⟨haddr, hp, object, hobject, hx, hl⟩ := h
    rcases List.mem_cons.mp he with rfl | he
    · exact ⟨haddr ▸ hp, object, haddr ▸ hobject, hx⟩
    · exact ih hl he

/-- The walk stops where `Package.addLoop` puts the ebuild. -/
theorem walk_of_addLoop {memory : PackageMemory} {e : Ebuild} {es : List Ebuild}
    (h : Linked memory.objects p l 0) {fuel : Nat} (hfuel : l.length < fuel) (last : Nat)
    (hadd : Package.addLoop e l = some (.ok es)) :
    ∃ before after current, l = before ++ after ∧ es = before ++ e :: after ∧
      Linked memory.objects p before current ∧ Linked memory.objects current after 0 ∧
      memory.walk e.addr e.version fuel last p =
        some (.ok ((before.getLast?.map Ebuild.addr).getD last, current)) := by
  induction l generalizing p fuel last es with
  | nil =>
    obtain ⟨fuel, rfl⟩ := Nat.exists_eq_add_of_lt hfuel
    have hp : p = 0 := h
    have hes : es = [e] := by simpa [Package.addLoop, eq_comm] using hadd
    exact ⟨[], [], p, rfl, hes, rfl, h, by rw [walk, if_pos hp]; rfl⟩
  | cons x l ih =>
    obtain ⟨haddr, hp, object, hobject, hx, hl⟩ := h
    obtain ⟨fuel, rfl⟩ : ∃ k, fuel = k + 1 := ⟨fuel - 1, by omega⟩
    have hchain : Linked memory.objects p (x :: l) 0 := ⟨haddr, hp, object, hobject, hx, hl⟩
    rw [Package.addLoop] at hadd
    by_cases hsame : e.addr = x.addr
    · rw [if_pos hsame] at hadd
      exact absurd (Option.some.inj hadd) (by simp)
    · rw [if_neg hsame] at hadd
      obtain ⟨compare, hcompare, hadd⟩ := Option.bind_eq_some_iff.mp hadd
      have hstep : memory.walk e.addr e.version (fuel + 1) last p =
          if 0 < compare then some (.ok (last, p)) else memory.walk e.addr e.version fuel p object.older := by
        rw [walk, if_neg hp, if_neg (haddr ▸ hsame), hobject, Option.bind_some, hx, hcompare,
          Option.bind_some]
      rw [hstep]
      split_ifs at hadd ⊢ with hnewer
      · have hes : es = e :: x :: l := by simpa [eq_comm] using hadd
        exact ⟨[], x :: l, p, rfl, hes, rfl, hchain, rfl⟩
      · obtain ⟨rest, hrest, hadd⟩ := Option.bind_eq_some_iff.mp hadd
        cases rest with
        | error error => exact absurd (Option.some.inj hadd) (by simp [Except.map])
        | ok rest =>
          have hes : es = x :: rest := by simpa [Except.map, eq_comm] using hadd
          have hshort : l.length < fuel := by
            rw [List.length_cons] at hfuel
            omega
          obtain ⟨before, after, current, rfl, rfl, hbefore, hafter, hwalk⟩ := ih hl hshort p hrest
          refine ⟨x :: before, after, current, rfl, hes, ⟨haddr, hp, object, hobject, hx, hbefore⟩,
            hafter, ?_⟩
          rw [hwalk]
          cases before with
          | nil => simp [haddr]
          | cons y before => simp [List.getLast?_cons]

end Linked

@[simp] theorem setObject_heads (memory : PackageMemory) (x : Nat) (f : EbuildObject → EbuildObject) :
    (memory.setObject x f).heads = memory.heads := rfl

theorem setObject_self (memory : PackageMemory) (x : Nat) (f : EbuildObject → EbuildObject) :
    (memory.setObject x f).objects x = (memory.objects x).map f := Function.update_self _ _ _

theorem setObject_of_ne (memory : PackageMemory) {x y : Nat} (hne : y ≠ x)
    (f : EbuildObject → EbuildObject) : (memory.setObject x f).objects y = memory.objects y :=
  Function.update_of_ne hne _ _

/-- What a linked ebuild leaves of the other objects and of its own. -/
structure Linking (memory memory' : PackageMemory) (p x last current : Nat) : Prop where
  heads : memory'.heads = if last = 0 then Function.update memory.heads p (some x) else memory.heads
  new : memory'.objects x = (memory.objects x).map fun object =>
    { object with package := p, older := current }
  last_older : last ≠ 0 → memory'.objects last = (memory.objects last).map fun object =>
    { object with older := x }
  others : ∀ y, y ≠ x → y ≠ last → memory'.objects y = memory.objects y
  zero : memory'.objects 0 = memory.objects 0

theorem linking {memory : PackageMemory} {self x last current : Nat} (hx : x ≠ 0) (hlast : last ≠ x) :
    Linking memory (memory.link self x last current) self x last current := by
  unfold link
  by_cases hzero : last = 0
  · simp only [if_pos hzero]
    have hrest : ∀ y, y ≠ x →
        (((memory.setHead self x).setObject x fun object => { object with older := current }).setObject x
          fun object => { object with package := self }).objects y = memory.objects y := by
      intro y hy
      rw [setObject_of_ne _ hy, setObject_of_ne _ hy]
      rfl
    refine ⟨(if_pos hzero).symm, ?_, fun hne => absurd hzero hne, fun y hy _ => hrest y hy, hrest 0 hx.symm⟩
    rw [setObject_self, setObject_self, Option.map_map]
    rfl
  · simp only [if_neg hzero]
    refine ⟨(if_neg hzero).symm, ?_, fun _ => ?_, fun y hy hyl => ?_, ?_⟩
    · rw [setObject_self, setObject_of_ne _ hlast.symm, setObject_self, Option.map_map]
      rfl
    · rw [setObject_of_ne _ hlast, setObject_self, setObject_of_ne _ hlast]
    · rw [setObject_of_ne _ hy, setObject_of_ne _ hyl, setObject_of_ne _ hy]
    · rw [setObject_of_ne _ hx.symm, setObject_of_ne _ (Ne.symm hzero), setObject_of_ne _ hx.symm]

/-- The new ebuild stands between the ebuilds before it and those behind it. -/
theorem Linking.linked {memory memory' : PackageMemory} {self x current head : Nat}
    {before after : List Ebuild} {object : EbuildObject}
    (h : Linking memory memory' self x ((before.getLast?.map Ebuild.addr).getD 0) current)
    (hhead : memory.heads self = some head) (hbefore : Linked memory.objects head before current)
    (hafter : Linked memory.objects current after 0)
    (hnodup : ((before ++ after).map Ebuild.addr).Nodup) (hx : x ≠ 0)
    (hobject : memory.objects x = some object) (haddr : object.ebuild.addr = x)
    (hnew : x ∉ (before ++ after).map Ebuild.addr) :
    ∃ head', memory'.heads self = some head' ∧
      Linked memory'.objects head' (before ++ object.ebuild :: after) 0 := by
  have hother : ∀ y ∈ before ++ after, y.addr ≠ x :=
    fun y hy he => hnew (List.mem_map.mpr ⟨y, hy, he⟩)
  have hlinkx : Linked memory'.objects current after 0 →
      Linked memory'.objects x (object.ebuild :: after) 0 := by
    intro hrest
    have hset : memory'.objects x = some { object with package := self, older := current } := by
      rw [h.new, hobject, Option.map_some]
    exact ⟨haddr, hx, _, hset, rfl, hrest⟩
  rcases List.eq_nil_or_concat' before with rfl | ⟨front, y, rfl⟩
  · have hlast : (([] : List Ebuild).getLast?.map Ebuild.addr).getD 0 = 0 := rfl
    rw [hlast] at h
    have hheads : memory'.heads self = some x := by
      rw [h.heads, if_pos rfl, Function.update_self]
    refine ⟨x, hheads, hlinkx (hafter.frame fun e he => ?_)⟩
    exact h.others _ (hother e he) (hafter.object he).1
  · have hlast : (((front ++ [y]).getLast?.map Ebuild.addr).getD 0) = y.addr := by simp
    rw [hlast] at h
    obtain ⟨t, hfront, hy⟩ := linked_append.mp hbefore
    obtain ⟨hyaddr, ht, yobject, hyobject, hye, hcurrent⟩ := hy
    have hcurrent : yobject.older = current := hcurrent
    have hyne : y.addr ≠ 0 := hyaddr ▸ ht
    have hheads : memory'.heads self = some head := by rw [h.heads, if_neg hyne, hhead]
    rw [List.append_assoc, List.map_append, List.nodup_append] at hnodup
    obtain ⟨-, hnodup, hapart⟩ := hnodup
    rw [List.singleton_append, List.map_cons, List.nodup_cons] at hnodup
    have hrest : Linked memory'.objects current after 0 := by
      refine hafter.frame fun e he => h.others _ (hother e (List.mem_append_right _ he)) fun hsame => ?_
      exact hnodup.1 (List.mem_map.mpr ⟨e, he, hsame⟩)
    have hfront' : Linked memory'.objects head front t := by
      refine hfront.frame fun e he => h.others _ (hother e (by simp [he])) fun hsame => ?_
      exact hapart _ (List.mem_map_of_mem he) _ (by simp) hsame
    refine ⟨head, hheads, ?_⟩
    rw [List.append_assoc, List.singleton_append]
    refine linked_append.mpr ⟨t, hfront', hyaddr, ht, { yobject with older := x }, ?_, hye, hlinkx hrest⟩
    rw [← hyaddr, h.last_older hyne, hyaddr, hyobject]
    rfl

/-- Each package links the ebuilds of a list of its own, and knows them by `package`. -/
structure Holds (memory : PackageMemory) (taken : Nat → List Ebuild) : Prop where
  addr : ∀ x object, memory.objects x = some object → object.ebuild.addr = x ∧ x ≠ 0
  heads : ∀ p head, memory.heads p = some head → p ≠ 0 ∧ Linked memory.objects head (taken p) 0
  nodup : ∀ p, ((taken p).map Ebuild.addr).Nodup
  package : ∀ x object, memory.objects x = some object → ∀ p, memory.heads p ≠ none →
    (object.package = p ↔ object.ebuild ∈ taken p)
  known : ∀ x object, memory.objects x = some object → object.package ≠ 0 →
    memory.heads object.package ≠ none

/-- The objects stay what they are of. -/
def SameEbuilds (memory memory' : PackageMemory) : Prop :=
  (∀ x, (memory'.objects x).map EbuildObject.ebuild = (memory.objects x).map EbuildObject.ebuild) ∧
    ∀ p, memory'.heads p = none ↔ memory.heads p = none

theorem Linking.object {memory memory' : PackageMemory} {p x last current : Nat}
    (h : Linking memory memory' p x last current) (y : Nat) :
    (memory'.objects y).map (fun object => (object.ebuild, object.package)) =
      (memory.objects y).map fun object => (object.ebuild, if y = x then p else object.package) := by
  by_cases hyx : y = x
  · rw [hyx, h.new, Option.map_map]
    simp only [if_true]
    rfl
  · simp only [if_neg hyx]
    by_cases hyl : y = last
    · by_cases hzero : last = 0
      · rw [hyl, hzero, h.zero]
      · rw [hyl, h.last_older hzero, Option.map_map]
        rfl
    · rw [h.others y hyx hyl]

theorem Linking.some {memory memory' : PackageMemory} {p x last current y : Nat}
    (h : Linking memory memory' p x last current) {object' : EbuildObject}
    (hy : memory'.objects y = some object') : ∃ object, memory.objects y = some object ∧
      object'.ebuild = object.ebuild ∧ object'.package = if y = x then p else object.package := by
  have hmap := h.object y
  rw [hy, Option.map_some] at hmap
  obtain ⟨object, hobject, he⟩ := Option.map_eq_some_iff.mp hmap.symm
  exact ⟨object, hobject, congrArg Prod.fst he.symm, congrArg Prod.snd he.symm⟩

theorem Linking.heads_of_ne {memory memory' : PackageMemory} {p x last current q : Nat}
    (h : Linking memory memory' p x last current) (hq : q ≠ p) : memory'.heads q = memory.heads q := by
  rw [h.heads]
  split_ifs
  · exact Function.update_of_ne hq _ _
  · rfl

theorem Linking.sameEbuilds {memory memory' : PackageMemory} {p x last current : Nat}
    (h : Linking memory memory' p x last current) (hp : memory.heads p ≠ none) :
    SameEbuilds memory memory' := by
  constructor
  · intro y
    have hmap := congrArg (Option.map Prod.fst) (h.object y)
    rwa [Option.map_map, Option.map_map] at hmap
  · intro q
    by_cases hq : q = p
    · rw [hq, h.heads]
      split_ifs
      · simp [hp]
      · rfl
    · rw [h.heads_of_ne hq]

theorem Holds.mem_iff {memory : PackageMemory} {taken : Nat → List Ebuild} (h : Holds memory taken)
    {p head x : Nat} (hp : memory.heads p = some head) {object : EbuildObject}
    (hx : memory.objects x = some object) :
    x ∈ (taken p).map Ebuild.addr ↔ object.package = p := by
  have hne : memory.heads p ≠ none := by simp [hp]
  rw [h.package x object hx p hne, List.mem_map]
  constructor
  · rintro ⟨e, he, haddr⟩
    obtain ⟨-, object', hobject', rfl⟩ := (h.heads p head hp).2.object he
    rw [haddr, hx] at hobject'
    rwa [Option.some.inj hobject']
  · intro he
    exact ⟨object.ebuild, he, (h.addr x object hx).1⟩

theorem Holds.link {memory memory' : PackageMemory} {taken : Nat → List Ebuild} (h : Holds memory taken)
    {p head x current : Nat} {object : EbuildObject} {before after : List Ebuild}
    (hp : memory.heads p = some head) (hx : memory.objects x = some object) (hfree : object.package = 0)
    (htaken : taken p = before ++ after) (hbefore : Linked memory.objects head before current)
    (hafter : Linked memory.objects current after 0)
    (hlink : Linking memory memory' p x ((before.getLast?.map Ebuild.addr).getD 0) current) :
    Holds memory' (Function.update taken p (before ++ object.ebuild :: after)) := by
  obtain ⟨haddr, hx0⟩ := h.addr x object hx
  have hp0 := (h.heads p head hp).1
  have hne : memory.heads p ≠ none := by simp [hp]
  have hsame := hlink.sameEbuilds hne
  have hperm : (before ++ object.ebuild :: after).Perm (object.ebuild :: taken p) := by
    rw [htaken]
    exact List.perm_middle
  have hnew : x ∉ (taken p).map Ebuild.addr := by
    rw [h.mem_iff hp hx, hfree]
    exact hp0.symm
  have hnodup := h.nodup p
  refine ⟨fun y object' hy => ?_, fun q head' hq => ?_, fun q => ?_, fun y object' hy q hq => ?_,
    fun y object' hy hpackage => ?_⟩
  · obtain ⟨old, hold, he, -⟩ := hlink.some hy
    rw [he]
    exact h.addr y old hold
  · by_cases hqp : q = p
    · rw [htaken] at hnew hnodup
      obtain ⟨head'', hhead, hlinked⟩ := hlink.linked hp hbefore hafter hnodup hx0 hx haddr hnew
      rw [hqp] at hq ⊢
      rw [Function.update_self, ← Option.some.inj (hhead.symm.trans hq)]
      exact ⟨hp0, hlinked⟩
    · rw [hlink.heads_of_ne hqp] at hq
      rw [Function.update_of_ne hqp]
      obtain ⟨hq0, hlinked⟩ := h.heads q head' hq
      refine ⟨hq0, hlinked.frame fun e he => ?_⟩
      obtain ⟨he0, eobject, heobject, -⟩ := hlinked.object he
      have hpackage : eobject.package = q := (h.mem_iff hq heobject).mp (List.mem_map_of_mem he)
      apply hlink.others
      · intro hex
        rw [hex, hx] at heobject
        rw [← Option.some.inj heobject, hfree] at hpackage
        exact hq0 hpackage.symm
      · intro hel
        cases hl : before.getLast? with
        | none =>
          rw [hl] at hel
          exact he0 hel
        | some y =>
          rw [hl] at hel
          have hmem : e.addr ∈ (taken p).map Ebuild.addr := by
            rw [htaken, show e.addr = y.addr from hel]
            exact List.mem_map_of_mem (List.mem_append_left _ (List.mem_of_getLast? hl))
          exact hqp (hpackage.symm.trans ((h.mem_iff hp heobject).mp hmem))
  · by_cases hqp : q = p
    · rw [hqp, Function.update_self, (hperm.map Ebuild.addr).nodup_iff, List.map_cons, List.nodup_cons, haddr]
      exact ⟨hnew, hnodup⟩
    · rw [Function.update_of_ne hqp]
      exact h.nodup q
  · obtain ⟨old, hold, he, hpackage⟩ := hlink.some hy
    rw [Ne, hsame.2] at hq
    have holdq := h.package y old hold q hq
    rw [he, hpackage]
    by_cases hyx : y = x
    · rw [hyx, hx] at hold
      obtain rfl := Option.some.inj hold
      rw [if_pos hyx]
      by_cases hqp : q = p
      · rw [hqp, Function.update_self]
        simp
      · rw [Function.update_of_ne hqp, ← holdq, hfree]
        obtain ⟨head', hhead'⟩ := Option.ne_none_iff_exists'.mp hq
        exact iff_of_false (Ne.symm hqp) (h.heads q head' hhead').1.symm
    · rw [if_neg hyx, holdq]
      by_cases hqp : q = p
      · have hother : old.ebuild ≠ object.ebuild := by
          intro hsame
          apply hyx
          rw [← (h.addr y old hold).1, hsame, haddr]
        rw [hqp, Function.update_self, hperm.mem_iff, List.mem_cons, or_iff_right hother]
      · rw [Function.update_of_ne hqp]
  · obtain ⟨old, hold, -, he⟩ := hlink.some hy
    rw [Ne, hsame.2, he]
    rw [he] at hpackage
    split_ifs with hyx
    · exact hne
    · rw [if_neg hyx] at hpackage
      exact h.known y old hold hpackage

/-- `add_ebuild` does to the links what `Package.addLoop` does to the list. -/
theorem Holds.addEbuild {memory : PackageMemory} {taken : Nat → List Ebuild} (h : Holds memory taken)
    {p head x : Nat} {object : EbuildObject} {es : List Ebuild} (hp : memory.heads p = some head)
    (hx : memory.objects x = some object) (hfree : object.package = 0) {fuel : Nat}
    (hfuel : (taken p).length < fuel)
    (hadd : Package.addLoop object.ebuild (taken p) = some (.ok es)) :
    ∃ memory', memory.addEbuild fuel ⟨p, some x⟩ = some (memory', .ok ()) ∧
      SameEbuilds memory memory' ∧ Holds memory' (Function.update taken p es) ∧
      ∀ y, (memory'.objects y).map EbuildObject.package =
        (memory.objects y).map fun object => if y = x then p else object.package := by
  obtain ⟨haddr, hx0⟩ := h.addr x object hx
  obtain ⟨hp0, hlinked⟩ := h.heads p head hp
  have hnew : x ∉ (taken p).map Ebuild.addr := by
    rw [h.mem_iff hp hx, hfree]
    exact hp0.symm
  obtain ⟨before, after, current, htaken, rfl, hbefore, hafter, hwalk⟩ :=
    walk_of_addLoop hlinked hfuel 0 hadd
  rw [haddr] at hwalk
  have hlast : (before.getLast?.map Ebuild.addr).getD 0 = 0 ∨
      (before.getLast?.map Ebuild.addr).getD 0 ∈ (taken p).map Ebuild.addr := by
    cases hl : before.getLast? with
    | none => exact .inl rfl
    | some y =>
      right
      rw [htaken]
      exact List.mem_map_of_mem (List.mem_append_left _ (List.mem_of_getLast? hl))
  have hlastx : (before.getLast?.map Ebuild.addr).getD 0 ≠ x := by
    rcases hlast with hl | hl
    · rw [hl]
      exact hx0.symm
    · exact fun he => hnew (he ▸ hl)
  have hlink : Linking memory (memory.link p x ((before.getLast?.map Ebuild.addr).getD 0) current) p x
    ((before.getLast?.map Ebuild.addr).getD 0) current := linking hx0 hlastx
  have hne : memory.heads p ≠ none := by simp [hp]
  refine ⟨_, ?_, hlink.sameEbuilds hne, h.link hp hx hfree htaken hbefore hafter hlink, fun y => ?_⟩
  · simp only [PackageMemory.addEbuild, hx, hp, Option.bind_eq_bind, Option.bind_some, hwalk]
    rw [if_neg (not_not.mpr hfree)]
    rfl
  · have hmap := congrArg (Option.map Prod.snd) (hlink.object y)
    rwa [Option.map_map, Option.map_map] at hmap

end PackageMemory

end AutoGentoo
