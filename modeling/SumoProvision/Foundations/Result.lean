import Mathlib.Data.List.Forall2

/-!
# Results of fallible computations

Inversion lemmas for `Except`: what a successful computation says about its parts. A loop that stops
at the first error succeeds iff each of its steps does (`mapM_eq_ok_iff`), and fails only where one
of them does (`exists_of_mapM_eq_error`).
-/

namespace List.Forall₂

variable {α β γ : Type} {R : α → β → Prop} {l : List α} {l' : List β}

theorem exists_left (h : Forall₂ R l l') {b : β} (hb : b ∈ l') : ∃ a ∈ l, R a b := by
  obtain ⟨hlength, hget⟩ := forall₂_iff_get.mp h
  obtain ⟨i, hi, rfl⟩ := getElem_of_mem hb
  exact ⟨l[i], getElem_mem _, hget i (by omega) hi⟩

/-- A property of all elements carries over, element by element. -/
theorem forall_mem_iff {P : α → Prop} {Q : β → Prop} (h : Forall₂ R l l')
    (hiff : ∀ a b, R a b → (P a ↔ Q b)) : (∀ a ∈ l, P a) ↔ ∀ b ∈ l', Q b := by
  induction h with
  | nil => simp
  | cons hab _ ih => simp only [forall_mem_cons, ih, hiff _ _ hab]

theorem map_eq_map {f : α → γ} {g : β → γ} (h : Forall₂ (fun a b => f a = g b) l l') :
    l.map f = l'.map g := by
  rwa [← forall₂_eq_eq_eq, forall₂_map_left_iff, forall₂_map_right_iff]

end List.Forall₂

namespace Except

variable {ε ε' α β : Type}

@[simp] theorem ok_bind (a : α) (f : α → Except ε β) : (Except.ok a >>= f) = f a := rfl

@[simp] theorem error_bind (e : ε) (f : α → Except ε β) : (Except.error e >>= f) = .error e := rfl

theorem bind_eq_ok_iff {x : Except ε α} {f : α → Except ε β} {b : β} :
    (x >>= f) = .ok b ↔ ∃ a, x = .ok a ∧ f a = .ok b := by
  cases x with
  | error e => simp
  | ok a => simp

theorem bind_eq_error_iff {x : Except ε α} {f : α → Except ε β} {e : ε} :
    (x >>= f) = .error e ↔ x = .error e ∨ ∃ a, x = .ok a ∧ f a = .error e := by
  cases x with
  | error e' => simp
  | ok a => simp

@[simp] theorem mapError_ok (f : ε → ε') (a : α) :
    (Except.ok a : Except ε α).mapError f = .ok a := rfl

@[simp] theorem mapError_error (f : ε → ε') (e : ε) :
    (Except.error e : Except ε α).mapError f = .error (f e) := rfl

@[simp] theorem mapError_eq_ok_iff {x : Except ε α} {f : ε → ε'} {a : α} :
    x.mapError f = .ok a ↔ x = .ok a := by
  cases x <;> simp

theorem map_eq_ok_iff {x : Except ε α} {f : α → β} {b : β} :
    x.map f = .ok b ↔ ∃ a, x = .ok a ∧ f a = b := by
  cases x <;> simp [Except.map]

theorem mapError_eq_error_iff {x : Except ε α} {f : ε → ε'} {e : ε'} :
    x.mapError f = .error e ↔ ∃ e', x = .error e' ∧ f e' = e := by
  cases x <;> simp

@[simp] theorem pure_ne_error {a : α} {e : ε} : (pure a : Except ε α) ≠ .error e := by
  simp [pure, Except.pure]

@[simp] theorem pure_eq_ok_iff {a b : α} : (pure a : Except ε α) = .ok b ↔ a = b := by
  simp [pure, Except.pure]

/-- A loop succeeds iff each step does, with the results in order. -/
theorem mapM_eq_ok_iff {f : α → Except ε β} {l : List α} {bs : List β} :
    l.mapM f = .ok bs ↔ List.Forall₂ (fun a b => f a = .ok b) l bs := by
  induction l generalizing bs with
  | nil =>
    rw [List.mapM_nil, pure_eq_ok_iff, List.forall₂_nil_left_iff]
    exact eq_comm
  | cons a l ih =>
    simp only [List.mapM_cons, bind_eq_ok_iff, ih, pure_eq_ok_iff, List.forall₂_cons_left_iff]
    constructor
    · rintro ⟨b, hb, bs', hbs', rfl⟩
      exact ⟨b, bs', hb, hbs', rfl⟩
    · rintro ⟨b, bs', hb, hbs', rfl⟩
      exact ⟨b, hb, bs', hbs', rfl⟩

/-- A loop depends on its body at the elements of the list only. -/
theorem mapM_congr {f g : α → Except ε β} {l : List α} (h : ∀ a ∈ l, f a = g a) :
    l.mapM f = l.mapM g := by
  induction l with
  | nil => rfl
  | cons a l ih =>
    rw [List.mapM_cons, List.mapM_cons, h a (by simp), ih fun b hb => h b (by simp [hb])]

/-- A loop that fails does so at one of its steps. -/
theorem exists_of_mapM_eq_error {f : α → Except ε β} {l : List α} {e : ε}
    (h : l.mapM f = .error e) : ∃ a ∈ l, f a = .error e := by
  induction l with
  | nil => cases h
  | cons a l ih =>
    simp only [List.mapM_cons, bind_eq_error_iff, pure_ne_error, and_false, exists_false,
      or_false] at h
    rcases h with ha | ⟨b, -, hl⟩
    · exact ⟨a, by simp, ha⟩
    · obtain ⟨a', ha', he⟩ := ih hl
      exact ⟨a', by simp [ha'], he⟩

/-- Two loops one after the other, step by step. -/
theorem forall₂_of_mapM_mapM {γ : Type} {f : α → Except ε β} {g : β → Except ε' γ} {l : List α}
    {bs : List β} {cs : List γ} (hf : l.mapM f = .ok bs) (hg : bs.mapM g = .ok cs) :
    List.Forall₂ (fun a c => ∃ b, f a = .ok b ∧ g b = .ok c) l cs := by
  rw [mapM_eq_ok_iff] at hf hg
  induction hf generalizing cs with
  | nil =>
    cases hg
    exact .nil
  | cons hab _ ih =>
    cases hg with
    | cons hbc hrest => exact .cons ⟨_, hab, hbc⟩ (ih hrest)

/-- A loop over `l'` whose every step succeeds in a way that relates its result to the element of
`l` at the same place. -/
theorem exists_mapM_eq_ok_of_forall₂ {γ : Type} {R : α → β → Prop} {P : α → γ → Prop}
    {f : β → Except ε γ} {l : List α} {l' : List β} (hl : List.Forall₂ R l l')
    (h : ∀ a ∈ l, ∀ b, R a b → ∃ c, f b = .ok c ∧ P a c) :
    ∃ cs, l'.mapM f = .ok cs ∧ List.Forall₂ P l cs := by
  induction hl with
  | nil => exact ⟨[], rfl, .nil⟩
  | cons hab _ ih =>
    obtain ⟨c, hc, hp⟩ := h _ (by simp) _ hab
    obtain ⟨cs, hcs, hps⟩ := ih fun a ha => h a (by simp [ha])
    exact ⟨c :: cs, by simp [List.mapM_cons, hc, hcs, pure, Except.pure], .cons hp hps⟩

/-- A loop whose every step succeeds in some way succeeds in that way. -/
theorem exists_mapM_eq_ok {f : α → Except ε β} {P : α → β → Prop} {l : List α}
    (h : ∀ a ∈ l, ∃ b, f a = .ok b ∧ P a b) :
    ∃ bs, l.mapM f = .ok bs ∧ List.Forall₂ P l bs := by
  refine exists_mapM_eq_ok_of_forall₂ (R := Eq) (List.forall₂_refl l) ?_
  rintro a ha _ rfl
  exact h a ha

/-- A loop succeeds iff each of its steps does. -/
theorem exists_mapM_eq_ok_iff {f : α → Except ε β} {l : List α} :
    (∃ bs, l.mapM f = .ok bs) ↔ ∀ a ∈ l, ∃ b, f a = .ok b := by
  constructor
  · rintro ⟨bs, hbs⟩ a ha
    obtain ⟨b, -, hb⟩ := (mapM_eq_ok_iff.mp hbs).flip.exists_left ha
    exact ⟨b, hb⟩
  · intro h
    have hsteps : ∀ a ∈ l, ∃ b, f a = .ok b ∧ True := by simpa using h
    obtain ⟨bs, hbs, -⟩ := exists_mapM_eq_ok hsteps
    exact ⟨bs, hbs⟩

end Except
