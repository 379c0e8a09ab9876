import AutoGentoo.StateExcept

/-! Computations with exceptions that keep a log beside their state. -/

namespace StateExcept

universe u

variable {σ ε κ α β : Type u}

/-- The entries are added at the end. -/
abbrev Logged (σ ε κ α : Type u) := ExceptT ε (StateM (σ × List κ)) α

def unlogged (c : ExceptT ε (StateM σ) α) : Logged σ ε κ α := fun s =>
  ((c s.1).1, (c s.1).2, s.2)

def record (entry : κ) : Logged σ ε κ PUnit := fun s => (.ok ⟨⟩, s.1, s.2 ++ [entry])

/-- Without its log it does the same as a computation that keeps none. -/
def Erases (d : Logged σ ε κ α) (c : ExceptT ε (StateM σ) α) : Prop :=
  ∀ s l, ((d (s, l)).1, (d (s, l)).2.1) = c s

theorem erases_unlogged (c : ExceptT ε (StateM σ) α) : Erases (κ := κ) (unlogged c) c := fun _ _ => rfl

theorem erases_pure (a : α) : Erases (κ := κ) (pure a) (pure a : ExceptT ε (StateM σ) α) :=
  fun _ _ => rfl

theorem Erases.bind {d : Logged σ ε κ α} {c : ExceptT ε (StateM σ) α} {f : α → Logged σ ε κ β}
    {g : α → ExceptT ε (StateM σ) β} (h : Erases d c) (hf : ∀ a, Erases (f a) (g a)) :
    Erases (d >>= f) (c >>= g) := by
  intro s l
  have hd := h s l
  rcases hrun : d (s, l) with ⟨r, t, l'⟩
  rw [hrun] at hd
  cases r with
  | ok a =>
    rw [bind_of_ok f hrun, bind_of_ok g hd.symm]
    exact hf a t l'
  | error e => rw [bind_of_error f hrun, bind_of_error g hd.symm]

/-- What is recorded in front leaves no trace without the log. -/
theorem Erases.record_bind (entry : κ) {d : Logged σ ε κ α} {c : ExceptT ε (StateM σ) α}
    (h : Erases d c) : Erases (record entry >>= fun _ => d) c :=
  fun s l => h s (l ++ [entry])

theorem Erases.forM {ι : Type u} {f : ι → Logged σ ε κ PUnit} {g : ι → ExceptT ε (StateM σ) PUnit}
    (h : ∀ i, Erases (f i) (g i)) (l : List ι) : Erases (l.forM f) (l.forM g) := by
  induction l with
  | nil => exact erases_pure _
  | cons i l ih => exact (h i).bind fun _ => ih

/-- From this state it comes back with these entries in the log, unless it is
stopped behind a bad one. -/
def Writes (bad : κ → Prop) (d : Logged σ ε κ α) (s : σ) (entries : List κ) : Prop :=
  ∀ l, ((∃ a, (d (s, l)).1 = .ok a) ∧ (d (s, l)).2.2 = l ++ entries) ∨
    ((∃ e, (d (s, l)).1 = .error e) ∧ ∃ more, (d (s, l)).2.2 = l ++ more ∧ ∃ k ∈ more, bad k)

variable {bad : κ → Prop}

theorem writes_pure (a : α) (s : σ) : Writes bad (pure a : Logged σ ε κ α) s [] :=
  fun l => .inl ⟨⟨a, rfl⟩, (List.append_nil l).symm⟩

theorem Writes.bind {d : Logged σ ε κ α} {c : ExceptT ε (StateM σ) α} {f : α → Logged σ ε κ β} {s : σ}
    {entries entries' : List κ} (hc : Erases d c) (hd : Writes bad d s entries)
    (hf : ∀ a t, c s = (.ok a, t) → Writes bad (f a) t entries') :
    Writes bad (d >>= f) s (entries ++ entries') := by
  intro l
  have he := hc s l
  have hw := hd l
  rcases hrun : d (s, l) with ⟨r, t, l'⟩
  rw [hrun] at he hw
  rcases hw with ⟨⟨a, rfl⟩, rfl⟩ | ⟨⟨e, rfl⟩, more, hl, hbad⟩
  · rw [bind_of_ok f hrun]
    rcases hf a t he.symm (l ++ entries) with ⟨hok, hlog⟩ | ⟨herr, more, hlog, k, hk, hbad⟩
    · exact .inl ⟨hok, by rw [hlog, List.append_assoc]⟩
    · refine .inr ⟨herr, entries ++ more, by rw [hlog, List.append_assoc], k, ?_, hbad⟩
      exact List.mem_append_right _ hk
  · rw [bind_of_error f hrun]
    exact .inr ⟨⟨e, rfl⟩, more, hl, hbad⟩

theorem Writes.unlogged_bind {c : ExceptT ε (StateM σ) α} {f : α → Logged σ ε κ β} {s t : σ} {a : α}
    {entries : List κ} (hc : c s = (.ok a, t)) (hf : Writes bad (f a) t entries) :
    Writes bad (unlogged c >>= f) s entries := by
  intro l
  have hrun : (unlogged c : Logged σ ε κ α) (s, l) = (.ok a, t, l) := by rw [unlogged, hc]
  rw [bind_of_ok f hrun]
  exact hf l

theorem writes_forM {ι : Type u} {f : ι → Logged σ ε κ PUnit} {g : ι → ExceptT ε (StateM σ) PUnit}
    (herase : ∀ i, Erases (f i) (g i)) {entries : ι → List κ} {Inv : σ → Prop} {l : List ι}
    (hturn : ∀ i ∈ l, ∀ s, Inv s → Writes bad (f i) s (entries i) ∧
      ∀ t, g i s = (.ok ⟨⟩, t) → Inv t) {s : σ} (hs : Inv s) :
    Writes bad (l.forM f) s (l.flatMap entries) := by
  induction l generalizing s with
  | nil => exact writes_pure _ s
  | cons i l ih =>
    obtain ⟨hwrites, hinv⟩ := hturn i List.mem_cons_self s hs
    rw [List.flatMap_cons]
    refine Writes.bind (herase i) hwrites fun _ t ht => ?_
    exact ih (fun j hj => hturn j (List.mem_cons_of_mem _ hj)) (hinv t ht)

end StateExcept
