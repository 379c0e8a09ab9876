import AutoGentoo.StateExcept

/-! The points that a computation comes to, such as the calls it makes: which of them end
it with an error, and what they account for of its effect. -/

namespace StateExcept

universe u

variable {σ ε α β : Type u} {Q V : Type*}

/-- The points that a computation comes to from a state. -/
abbrev Points (σ : Type u) (Q : Type*) := σ → Q → Prop

namespace Points

def none : Points σ Q := fun _ _ => False

/-- Those that come next, where a computation returns. -/
def after (c : ExceptT ε (StateM σ) α) (next : α → Points σ Q) : Points σ Q :=
  fun s q => ∃ a t, c s = (.ok a, t) ∧ next a t q

def andThen (points : Points σ Q) (c : ExceptT ε (StateM σ) α) (next : α → Points σ Q) : Points σ Q :=
  fun s q => points s q ∨ after c next s q

/-- What comes next does so from where a computation returned. -/
theorem after_iff {c : ExceptT ε (StateM σ) α} {next : α → Points σ Q} {s t : σ} {a : α}
    (h : c s = (.ok a, t)) (q : Q) : after c next s q ↔ next a t q := by
  refine ⟨?_, fun hq => ⟨a, t, h, hq⟩⟩
  rintro ⟨a', t', h', hq⟩
  obtain ⟨ha, rfl⟩ := Prod.mk.inj (h.symm.trans h')
  exact Except.ok.inj ha ▸ hq

theorem andThen_iff {points : Points σ Q} {c : ExceptT ε (StateM σ) α} {next : α → Points σ Q} {s t : σ}
    {a : α} (h : c s = (.ok a, t)) (q : Q) : points.andThen c next s q ↔ points s q ∨ next a t q :=
  or_congr_right (after_iff h q)

/-- Those of the turns of a loop. -/
def along (f : α → ExceptT ε (StateM σ) PUnit) (points : α → Points σ Q) : List α → Points σ Q
  | [] => none
  | a :: l => (points a).andThen (f a) fun _ => along f points l

end Points

/-- It ends with the error just where it comes to a bad point. -/
def Blames (e : ε) (bad : Q → Prop) (c : ExceptT ε (StateM σ) α) (points : Points σ Q) : Prop :=
  ∀ s, (∃ t, c s = (.error e, t)) ↔ ∃ q, points s q ∧ bad q

variable {e : ε} {bad : Q → Prop} {c : ExceptT ε (StateM σ) α} {points : Points σ Q}

theorem Avoids.blames (h : Avoids e c) : Blames e bad c Points.none := fun s =>
  iff_of_false (fun ⟨t, ht⟩ => h s t ht) fun ⟨_, hq, _⟩ => hq

namespace Blames

theorem congr {points' : Points σ Q} (h : Blames e bad c points) (hsame : ∀ s q, points' s q ↔ points s q) :
    Blames e bad c points' := fun s =>
  (h s).trans (exists_congr fun q => and_congr_left' (hsame s q).symm)

variable {f : α → ExceptT ε (StateM σ) β} {next : α → Points σ Q}

theorem bind (hc : Blames e bad c points) (hf : ∀ a, Blames e bad (f a) (next a)) :
    Blames e bad (c >>= f) (points.andThen c next) := by
  intro s
  constructor
  · rintro ⟨t, h⟩
    rcases bind_error h with h | ⟨a, r, ha, h⟩
    · obtain ⟨q, hq, hbad⟩ := (hc s).mp ⟨t, h⟩
      exact ⟨q, .inl hq, hbad⟩
    · obtain ⟨q, hq, hbad⟩ := (hf a r).mp ⟨t, h⟩
      exact ⟨q, .inr ⟨a, r, ha, hq⟩, hbad⟩
  · rintro ⟨q, hq | ⟨a, r, ha, hq⟩, hbad⟩
    · obtain ⟨t, h⟩ := (hc s).mpr ⟨q, hq, hbad⟩
      exact ⟨t, bind_of_error f h⟩
    · obtain ⟨t, h⟩ := (hf a r).mpr ⟨q, hq, hbad⟩
      exact ⟨t, (bind_of_ok f ha).trans h⟩

/-- Behind a part that does not end with the error. -/
theorem bind_after (hc : Avoids e c) (hf : ∀ a, Blames e bad (f a) (next a)) :
    Blames e bad (c >>= f) (Points.after c next) := by
  intro s
  rw [hc.blames.bind hf s]
  refine exists_congr fun q => and_congr_left' ?_
  exact or_iff_right id

/-- In front of a part that does not end with the error. -/
theorem bind_avoids (hc : Blames e bad c points) (hf : ∀ a, Avoids e (f a)) :
    Blames e bad (c >>= f) points := by
  intro s
  rw [hc.bind (fun a => (hf a).blames) s]
  refine exists_congr fun q => and_congr_left' ?_
  exact or_iff_left fun ⟨_, _, _, hq⟩ => hq

theorem forM {f : α → ExceptT ε (StateM σ) PUnit} {points : α → Points σ Q} {l : List α}
    (h : ∀ a, Blames e bad (f a) (points a)) : Blames e bad (l.forM f) (Points.along f points l) := by
  induction l with
  | nil => exact (avoids_pure _).blames
  | cons a l ih => exact (h a).bind fun _ => ih

end Blames

/-- What there is to see afterwards was there before, or one of the points gives it. -/
def Gains (view : σ → V → Prop) (gives : Q → V → Prop) (c : ExceptT ε (StateM σ) α)
    (points : Points σ Q) : Prop :=
  ∀ s v, view (c s).2 v → view s v ∨ ∃ q, points s q ∧ gives q v

variable {view : σ → V → Prop} {gives : Q → V → Prop}

/-- A computation after which there is no more to see. -/
theorem Respects.gains (h : Respects (fun s t => ∀ v, view t v → view s v) c) :
    Gains view gives c Points.none := fun s v hv => .inl (h s v hv)

namespace Gains

variable {f : α → ExceptT ε (StateM σ) β} {next : α → Points σ Q}

theorem bind (hc : Gains view gives c points) (hf : ∀ a, Gains view gives (f a) (next a)) :
    Gains view gives (c >>= f) (points.andThen c next) := by
  intro s v hv
  have hfirst := hc s v
  rcases bind_run c f s with ⟨a, r, ha, hb⟩ | ⟨e', r, he, hb⟩
  · rw [hb] at hv
    rw [ha] at hfirst
    rcases hf a r v hv with hv | ⟨q, hq, hgives⟩
    · rcases hfirst hv with hv | ⟨q, hq, hgives⟩
      · exact .inl hv
      · exact .inr ⟨q, .inl hq, hgives⟩
    · exact .inr ⟨q, .inr ⟨a, r, ha, hq⟩, hgives⟩
  · rw [hb] at hv
    rw [he] at hfirst
    rcases hfirst hv with hv | ⟨q, hq, hgives⟩
    · exact .inl hv
    · exact .inr ⟨q, .inl hq, hgives⟩

theorem mono {points' : Points σ Q} (h : Gains view gives c points) (hle : ∀ s q, points s q → points' s q) :
    Gains view gives c points' := by
  intro s v hv
  rcases h s v hv with hv | ⟨q, hq, hgives⟩
  · exact .inl hv
  · exact .inr ⟨q, hle s q hq, hgives⟩

theorem bind_after (hc : Gains view gives c Points.none) (hf : ∀ a, Gains view gives (f a) (next a)) :
    Gains view gives (c >>= f) (Points.after c next) :=
  (hc.bind hf).mono fun _ _ hq => hq.resolve_left id

theorem bind_respects (hc : Gains view gives c points)
    (hf : ∀ a, Gains (Q := Q) view gives (f a) Points.none) : Gains view gives (c >>= f) points :=
  (hc.bind hf).mono fun _ _ hq => hq.resolve_right fun ⟨_, _, _, hq⟩ => hq

theorem forM {f : α → ExceptT ε (StateM σ) PUnit} {points : α → Points σ Q} {l : List α}
    (h : ∀ a, Gains view gives (f a) (points a)) : Gains view gives (l.forM f) (Points.along f points l) := by
  induction l with
  | nil => exact fun s v hv => .inl hv
  | cons a l ih => exact (h a).bind fun _ => ih

end Gains

end StateExcept
