import Mathlib.Data.List.Forall2

/-!
# Results

Computations that return a value or raise an exception and do nothing else: when a sequence or a
loop over a list returns.
-/

namespace Effects

variable {ε α γ : Type} {l : List α}

/-- A sequence returns what its last part returns, if each part returns. -/
theorem bind_eq_ok {x : Except ε α} {f : α → Except ε γ} {c : γ} :
    (x >>= f) = .ok c ↔ ∃ a, x = .ok a ∧ f a = .ok c := by
  cases x with
  | error e =>
    constructor
    · intro h
      cases h
    · rintro ⟨a, h, -⟩
      cases h
  | ok a =>
    refine ⟨fun h => ⟨a, rfl, h⟩, ?_⟩
    rintro ⟨a', heq, h⟩
    cases heq
    exact h

/-- A function of a result is returned if the result is. -/
theorem map_eq_ok {x : Except ε α} {g : α → γ} {c : γ} :
    g <$> x = .ok c ↔ ∃ a, x = .ok a ∧ g a = c := by
  cases x with
  | error e =>
    constructor
    · intro h
      cases h
    · rintro ⟨a, h, -⟩
      cases h
  | ok a =>
    refine ⟨fun h => ⟨a, rfl, by cases h; rfl⟩, ?_⟩
    rintro ⟨a', heq, rfl⟩
    cases heq
    rfl

/-- A loop returns what its turns return. -/
theorem mapM_eq_ok {f : α → Except ε γ} {l' : List γ} :
    l.mapM f = .ok l' ↔ List.Forall₂ (fun a c => f a = .ok c) l l' := by
  induction l generalizing l' with
  | nil =>
    rw [List.mapM_nil, List.forall₂_nil_left_iff]
    exact ⟨fun h => by cases h; rfl, fun h => by rw [h]; rfl⟩
  | cons a l ih =>
    rw [List.mapM_cons, bind_eq_ok, List.forall₂_cons_left_iff]
    constructor
    · rintro ⟨c, hc, h⟩
      obtain ⟨rest, hrest, h⟩ := bind_eq_ok.mp h
      cases h
      exact ⟨c, rest, hc, ih.mp hrest, rfl⟩
    · rintro ⟨c, rest, hc, hrest, rfl⟩
      exact ⟨c, hc, bind_eq_ok.mpr ⟨rest, ih.mpr hrest, rfl⟩⟩

/-- What holds of each result holds of the results of a loop. -/
theorem forall_mem_of_forall₂ {R : α → γ → Prop} {p : γ → Prop} {l' : List γ}
    (h : List.Forall₂ R l l') (hp : ∀ a ∈ l, ∀ c, R a c → p c) : ∀ c ∈ l', p c := by
  induction h with
  | nil => exact List.forall_mem_nil _
  | cons hac _ ih =>
    rw [List.forall_mem_cons] at hp ⊢
    exact ⟨hp.1 _ hac, ih hp.2⟩

theorem exists_mapM {f : α → Except ε γ} (h : ∀ a ∈ l, ∃ c, f a = .ok c) :
    ∃ l', l.mapM f = .ok l' := by
  induction l with
  | nil => exact ⟨[], rfl⟩
  | cons a l ih =>
    rw [List.forall_mem_cons] at h
    obtain ⟨c, hc⟩ := h.1
    obtain ⟨rest, hrest⟩ := ih h.2
    refine ⟨c :: rest, ?_⟩
    rw [List.mapM_cons, bind_eq_ok]
    exact ⟨c, hc, bind_eq_ok.mpr ⟨rest, hrest, rfl⟩⟩

theorem exists_foldlM {f : γ → α → Except ε γ} (h : ∀ c, ∀ a ∈ l, ∃ c', f c a = .ok c') (c : γ) :
    ∃ c', l.foldlM f c = .ok c' := by
  induction l generalizing c with
  | nil => exact ⟨c, rfl⟩
  | cons a l ih =>
    obtain ⟨c₁, hc₁⟩ := h c a List.mem_cons_self
    obtain ⟨c₂, hc₂⟩ := ih (fun c' a' ha' => h c' a' (List.mem_cons_of_mem a ha')) c₁
    refine ⟨c₂, ?_⟩
    rw [List.foldlM_cons, bind_eq_ok]
    exact ⟨c₁, hc₁, hc₂⟩

end Effects
