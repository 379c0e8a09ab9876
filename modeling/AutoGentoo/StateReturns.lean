import AutoGentoo.StateExcept

/-! Computations with exceptions that return: the rules for what holds before and after. -/

namespace StateExcept

universe u

variable {σ ε α β : Type u}

/-- From a state with `P` it returns, in a state with `Q` of its value. -/
def Returns (P : σ → Prop) (c : ExceptT ε (StateM σ) α) (Q : α → σ → Prop) : Prop :=
  ∀ s, P s → ∃ a t, c s = (.ok a, t) ∧ Q a t

variable {P P' : σ → Prop} {Q Q' : α → σ → Prop} {R : β → σ → Prop} {c : ExceptT ε (StateM σ) α}

theorem returns_pure {a : α} (h : ∀ s, P s → Q a s) : Returns P (pure a : ExceptT ε (StateM σ) α) Q :=
  fun s hs => ⟨a, s, rfl, h s hs⟩

theorem Returns.mono (h : Returns P c Q) (hP : ∀ s, P' s → P s) (hQ : ∀ a s, Q a s → Q' a s) :
    Returns P' c Q' := by
  intro s hs
  obtain ⟨a, t, hok, ht⟩ := h s (hP s hs)
  exact ⟨a, t, hok, hQ a t ht⟩

theorem Returns.bind (hc : Returns P c Q) {f : α → ExceptT ε (StateM σ) β}
    (hf : ∀ a, Returns (Q a) (f a) R) : Returns P (c >>= f) R := by
  intro s hs
  obtain ⟨a, t, hok, ht⟩ := hc s hs
  obtain ⟨b, r, hrest, hr⟩ := hf a t ht
  exact ⟨b, r, (bind_of_ok f hok).trans hrest, hr⟩

/-- A loop returns of which each turn does and keeps the invariant. -/
theorem returns_forM {f : α → ExceptT ε (StateM σ) PUnit} {l : List α}
    (h : ∀ a ∈ l, Returns P (f a) fun _ => P) : Returns P (l.forM f) fun _ => P := by
  induction l with
  | nil => exact returns_pure fun _ hs => hs
  | cons a l ih =>
    exact (h a List.mem_cons_self).bind fun _ => ih fun b hb => h b (List.mem_cons_of_mem _ hb)

theorem Returns.ok (h : Returns P c Q) {s t : σ} {a : α} (hs : P s) (hc : c s = (.ok a, t)) : Q a t := by
  obtain ⟨b, r, hok, hr⟩ := h s hs
  obtain ⟨hab, rfl⟩ := Prod.mk.inj (hc.symm.trans hok)
  rw [Except.ok.inj hab]
  exact hr

end StateExcept
