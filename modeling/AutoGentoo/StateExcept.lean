import Mathlib.Logic.Basic

/-! Computations with exceptions that keep the state they are raised in: what a
normal return says about their parts, relations between the states before and
after, and conditions along a loop. -/

namespace StateExcept

universe u

variable {σ ε α β : Type u}

theorem bind_of_ok {c : ExceptT ε (StateM σ) α} (f : α → ExceptT ε (StateM σ) β) {s t : σ} {a : α}
    (h : c s = (.ok a, t)) : (c >>= f) s = f a t := by
  have hb : (c >>= f) s = ExceptT.bindCont f (c s).1 (c s).2 := rfl
  rw [hb, h]
  rfl

theorem bind_of_error {c : ExceptT ε (StateM σ) α} (f : α → ExceptT ε (StateM σ) β) {s t : σ} {e : ε}
    (h : c s = (.error e, t)) : (c >>= f) s = (.error e, t) := by
  have hb : (c >>= f) s = ExceptT.bindCont f (c s).1 (c s).2 := rfl
  rw [hb, h]
  rfl

theorem bind_run (c : ExceptT ε (StateM σ) α) (f : α → ExceptT ε (StateM σ) β) (s : σ) :
    ((∃ a t, c s = (.ok a, t) ∧ (c >>= f) s = f a t) ∨
      ∃ e t, c s = (.error e, t) ∧ (c >>= f) s = (.error e, t)) := by
  rcases hc : c s with ⟨r, t⟩
  cases r with
  | ok a => exact .inl ⟨a, t, rfl, bind_of_ok f hc⟩
  | error e => exact .inr ⟨e, t, rfl, bind_of_error f hc⟩

theorem bind_congr_ok {c : ExceptT ε (StateM σ) α} {f g : α → ExceptT ε (StateM σ) β} {s : σ}
    (h : ∀ a t, c s = (.ok a, t) → f a t = g a t) : (c >>= f) s = (c >>= g) s := by
  rcases hc : c s with ⟨r, t⟩
  cases r with
  | ok a => rw [bind_of_ok f hc, bind_of_ok g hc, h a t hc]
  | error e => rw [bind_of_error f hc, bind_of_error g hc]

theorem bind_ok {c : ExceptT ε (StateM σ) α} {f : α → ExceptT ε (StateM σ) β} {s t : σ} {b : β} :
    (c >>= f) s = (.ok b, t) ↔ ∃ a r, c s = (.ok a, r) ∧ f a r = (.ok b, t) := by
  rcases bind_run c f s with ⟨a, r, hc, hb⟩ | ⟨e, r, hc, hb⟩
  · rw [hb, hc]
    constructor
    · exact fun h => ⟨a, r, rfl, h⟩
    · rintro ⟨a', r', h, h'⟩
      obtain ⟨h1, rfl⟩ := Prod.mk.inj h
      obtain rfl := Except.ok.inj h1
      exact h'
  · rw [hb, hc]
    constructor
    · intro h
      exact absurd (Prod.mk.inj h).1 (by simp)
    · rintro ⟨a', r', h, -⟩
      exact absurd (Prod.mk.inj h).1 (by simp)

theorem pure_ok {a b : α} {s t : σ} :
    (pure a : ExceptT ε (StateM σ) α) s = (.ok b, t) ↔ a = b ∧ s = t := by
  show ((.ok a, s) : Except ε α × σ) = (.ok b, t) ↔ _
  simp

theorem throw_ok {e : ε} {a : α} {s t : σ} :
    (throw e : ExceptT ε (StateM σ) α) s ≠ (.ok a, t) := by
  intro h
  exact absurd (show ((.error e, s) : Except ε α × σ) = (.ok a, t) from h) (by simp)

theorem get_ok {s t a : σ} : (get : ExceptT ε (StateM σ) σ) s = (.ok a, t) ↔ a = s ∧ t = s := by
  show ((.ok s, s) : Except ε σ × σ) = (.ok a, t) ↔ _
  simp [eq_comm]

/-- The state after it, however it ends, is related to the one before. -/
def Respects (R : σ → σ → Prop) (c : ExceptT ε (StateM σ) α) : Prop := ∀ s, R s (c s).2

variable {R : σ → σ → Prop} {c : ExceptT ε (StateM σ) α}

theorem Respects.ok (h : Respects R c) {s t : σ} {a : α} (hc : c s = (.ok a, t)) : R s t := by
  have hs := h s
  rwa [hc] at hs

theorem Respects.mono {R' : σ → σ → Prop} (h : Respects R c) (hle : ∀ s t, R s t → R' s t) :
    Respects R' c := fun s => hle s _ (h s)

theorem respects_pure (hrefl : ∀ s, R s s) (a : α) :
    Respects R (pure a : ExceptT ε (StateM σ) α) := fun s => hrefl s

theorem respects_throw (hrefl : ∀ s, R s s) (e : ε) :
    Respects R (throw e : ExceptT ε (StateM σ) α) := fun s => hrefl s

theorem respects_get (hrefl : ∀ s, R s s) : Respects R (get : ExceptT ε (StateM σ) σ) :=
  fun s => hrefl s

theorem respects_get_bind {f : σ → ExceptT ε (StateM σ) α} (h : ∀ s, R s (f s s).2) :
    Respects R (get >>= f) := fun s => h s

theorem Respects.bind (htrans : ∀ s t r, R s t → R t r → R s r) (hc : Respects R c)
    {f : α → ExceptT ε (StateM σ) β} (hf : ∀ a, Respects R (f a)) : Respects R (c >>= f) := by
  intro s
  have hs := hc s
  rcases bind_run c f s with ⟨a, t, h, hb⟩ | ⟨e, t, h, hb⟩
  · rw [h] at hs
    rw [hb]
    exact htrans _ _ _ hs (hf a t)
  · rw [h] at hs
    rw [hb]
    exact hs

theorem respects_forM (hrefl : ∀ s, R s s) (htrans : ∀ s t r, R s t → R t r → R s r)
    {f : α → ExceptT ε (StateM σ) PUnit} {l : List α} (h : ∀ a ∈ l, Respects R (f a)) :
    Respects R (l.forM f) := by
  induction l with
  | nil => exact respects_pure hrefl _
  | cons a l ih =>
    exact (h a List.mem_cons_self).bind htrans fun _ => ih fun b hb => h b (List.mem_cons_of_mem _ hb)

/-- It never ends with this error. -/
def Avoids (e : ε) (c : ExceptT ε (StateM σ) α) : Prop := ∀ s t, c s ≠ (.error e, t)

variable {e : ε}

theorem avoids_pure (a : α) : Avoids e (pure a : ExceptT ε (StateM σ) α) := by
  intro s t h
  have hp : ((.ok a, s) : Except ε α × σ) = (.error e, t) := h
  exact absurd (Prod.mk.inj hp).1 (by simp)

theorem avoids_throw {e' : ε} (h : e' ≠ e) : Avoids e (throw e' : ExceptT ε (StateM σ) α) := by
  intro s t ht
  have hp : ((.error e', s) : Except ε α × σ) = (.error e, t) := ht
  exact h (Except.error.inj (Prod.mk.inj hp).1)

theorem avoids_get : Avoids e (get : ExceptT ε (StateM σ) σ) := by
  intro s t h
  have hp : ((.ok s, s) : Except ε σ × σ) = (.error e, t) := h
  exact absurd (Prod.mk.inj hp).1 (by simp)

theorem bind_error {f : α → ExceptT ε (StateM σ) β} {s t : σ} (h : (c >>= f) s = (.error e, t)) :
    c s = (.error e, t) ∨ ∃ a r, c s = (.ok a, r) ∧ f a r = (.error e, t) := by
  rcases bind_run c f s with ⟨a, r, hc, hb⟩ | ⟨e', r, hc, hb⟩
  · exact .inr ⟨a, r, hc, hb ▸ h⟩
  · obtain ⟨he, hr⟩ := Prod.mk.inj (hb.symm.trans h)
    exact .inl (by rw [hc, Except.error.inj he, hr])

theorem Avoids.bind {f : α → ExceptT ε (StateM σ) β} (hc : Avoids e c) (hf : ∀ a, Avoids e (f a)) :
    Avoids e (c >>= f) := by
  intro s t h
  rcases bind_error h with h | ⟨a, r, -, h⟩
  · exact hc s t h
  · exact hf a r t h

/-- A loop avoids an error that no turn ends with from a state that has the
invariant. -/
theorem forM_ne_error {f : α → ExceptT ε (StateM σ) PUnit} {Inv : σ → Prop} {l : List α}
    (hturn : ∀ a ∈ l, ∀ s, Inv s → (∀ t, f a s ≠ (.error e, t)) ∧
      ∀ t, f a s = (.ok ⟨⟩, t) → Inv t) {s : σ} (hs : Inv s) (t : σ) : l.forM f s ≠ (.error e, t) := by
  induction l generalizing s with
  | nil => exact avoids_pure _ s t
  | cons a l ih =>
    intro h
    obtain ⟨hne, hinv⟩ := hturn a List.mem_cons_self s hs
    rcases bind_error h with h | ⟨⟨⟩, r, ha, h⟩
    · exact hne t h
    · exact ih (fun b hb => hturn b (List.mem_cons_of_mem _ hb)) (hinv r ha) h

theorem avoids_forM {f : α → ExceptT ε (StateM σ) PUnit} {l : List α} (h : ∀ a ∈ l, Avoids e (f a)) :
    Avoids e (l.forM f) := by
  intro s t
  refine forM_ne_error (fun a ha s _ => ⟨h a ha s, fun _ _ => trivial⟩) trivial t

/-- The second does what the first does, unless that ends with this error. -/
def Extends (e : ε) (c d : ExceptT ε (StateM σ) α) : Prop :=
  ∀ s, (∀ t, c s ≠ (.error e, t)) → d s = c s

theorem extends_refl (c : ExceptT ε (StateM σ) α) : Extends e c c := fun _ _ => rfl

theorem Extends.bind {c d : ExceptT ε (StateM σ) α} {f g : α → ExceptT ε (StateM σ) β}
    (hc : Extends e c d) (hf : ∀ a, Extends e (f a) (g a)) : Extends e (c >>= f) (d >>= g) := by
  intro s h
  rcases hcs : c s with ⟨a | a, t⟩
  · have hb := bind_of_error f hcs
    have hne : ∀ t', c s ≠ (.error e, t') := by
      intro t' he
      obtain ⟨ha, -⟩ := Prod.mk.inj (hcs.symm.trans he)
      exact h t (by rw [hb, Except.error.inj ha])
    rw [hb, bind_of_error g ((hc s hne).trans hcs)]
  · have hb := bind_of_ok f hcs
    have hne : ∀ t', c s ≠ (.error e, t') := fun t' he =>
      absurd (Prod.mk.inj (hcs.symm.trans he)).1 (by simp)
    rw [hb, bind_of_ok g ((hc s hne).trans hcs)]
    exact hf a t fun t' he => h t' (hb.trans he)

theorem Extends.forM {f g : α → ExceptT ε (StateM σ) PUnit} {l : List α}
    (h : ∀ a, Extends e (f a) (g a)) : Extends e (l.forM f) (l.forM g) := by
  induction l with
  | nil => exact extends_refl _
  | cons a l ih => exact (h a).bind fun _ => ih

/-- A condition before each turn of a loop that comes to it. -/
def Along (f : α → ExceptT ε (StateM σ) PUnit) (ok : α → σ → Prop) : List α → σ → Prop
  | [], _ => True
  | a :: l, s => ok a s ∧ ∀ t, f a s = (.ok ⟨⟩, t) → Along f ok l t

/-- What is to hold wherever a computation returns is decided by running it. -/
instance decidableReturns (c : ExceptT ε (StateM σ) α) (s : σ) (p : α → σ → Prop) [∀ a t, Decidable (p a t)] :
    Decidable (∀ a t, c s = (.ok a, t) → p a t) :=
  match c s with
  | (.ok a, t) => decidable_of_iff (p a t) ⟨fun hp a' t' h => by
      obtain ⟨ha, rfl⟩ := Prod.mk.inj h
      exact Except.ok.inj ha ▸ hp, fun hall => hall a t rfl⟩
  | (.error _, _) => isTrue fun _ _ h => absurd (Prod.mk.inj h).1 (by simp)

instance Along.decidable (f : α → ExceptT ε (StateM σ) PUnit) (ok : α → σ → Prop) [∀ a s, Decidable (ok a s)] :
    (l : List α) → (s : σ) → Decidable (Along f ok l s)
  | [], _ => isTrue trivial
  | a :: l, s =>
    have : ∀ t, Decidable (Along f ok l t) := Along.decidable f ok l
    decidable_of_iff (ok a s ∧ ∀ u t, f a s = (.ok u, t) → Along f ok l t)
      (and_congr_right' ⟨fun h t => h ⟨⟩ t, fun h _ => h⟩)

theorem forM_ok {f : α → ExceptT ε (StateM σ) PUnit} {a : α} {l : List α} {s t : σ} :
    ((a :: l).forM f) s = (.ok ⟨⟩, t) ↔ ∃ r, f a s = (.ok ⟨⟩, r) ∧ (l.forM f) r = (.ok ⟨⟩, t) := by
  show (f a >>= fun _ => l.forM f) s = _ ↔ _
  rw [bind_ok]
  constructor
  · rintro ⟨⟨⟩, r, h, h'⟩
    exact ⟨r, h, h'⟩
  · rintro ⟨r, h, h'⟩
    exact ⟨⟨⟩, r, h, h'⟩

/-- A loop that comes to its end keeps what each turn keeps that meets the
condition. -/
theorem Along.invariant {f : α → ExceptT ε (StateM σ) PUnit} {ok : α → σ → Prop} {Inv : σ → Prop}
    {l : List α} (hturn : ∀ a ∈ l, ∀ s t, Inv s → ok a s → f a s = (.ok ⟨⟩, t) → Inv t) {s t : σ}
    (hok : Along f ok l s) (hs : Inv s) (h : l.forM f s = (.ok ⟨⟩, t)) : Inv t := by
  induction l generalizing s with
  | nil =>
    obtain ⟨-, rfl⟩ := pure_ok.mp h
    exact hs
  | cons a l ih =>
    obtain ⟨r, ha, hl⟩ := forM_ok.mp h
    exact ih (fun b hb => hturn b (List.mem_cons_of_mem _ hb)) (hok.2 r ha)
      (hturn a List.mem_cons_self s r hs hok.1 ha) hl

end StateExcept
