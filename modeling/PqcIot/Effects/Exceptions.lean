import PqcIot.Effects.Program

/-!
# Programs with exceptions

Code over a signature that returns or raises: `ExceptT ε (Prog S) α`.

The module introduces:

* `Ensures φ Q R h c` — after the history `h`, every operation that `c` performs satisfies `φ` at
  the history it is performed at, every value it returns satisfies `Q` and every exception it raises
  satisfies `R` at the history it ends with;
* `Only p c` — every operation of `c` satisfies `p`;
* `May Q c` — for some answers `c` ends with an outcome that satisfies `Q`;
* inversions of completed runs (`run_of_bind_ok`, `run_of_call`).

There is one rule for each construct of the code, so that a specification is computed along the text
of a function.
-/

namespace Effects

namespace Raising

variable {S : Signature} {ε α γ : Type}

/-- Perform an operation. -/
def call (o : S.Op) : ExceptT ε (Prog S) (S.Ans o) :=
  ExceptT.mk (.op o fun a => .ret (.ok a))

/-- Raise an exception. -/
def raise (e : ε) : ExceptT ε (Prog S) α := ExceptT.mk (.ret (.error e))

/-- The value of a computation that may have raised. -/
def ofExcept (r : Except ε α) : ExceptT ε (Prog S) α := ExceptT.mk (.ret r)

/-- Specification of code that may raise. -/
def Ensures (φ : List (Event S) → S.Op → Prop) (Q : List (Event S) → α → Prop)
    (R : List (Event S) → ε → Prop) (h : List (Event S)) (c : ExceptT ε (Prog S) α) : Prop :=
  Prog.Spec φ (fun h' r => match r with
    | .ok a => Q h' a
    | .error e => R h' e) h c.run

variable {φ φ' : List (Event S) → S.Op → Prop} {Q Q' : List (Event S) → α → Prop}
  {R R' : List (Event S) → ε → Prop} {h : List (Event S)}

/-- Nothing is called, and the value is returned. -/
@[simp]
theorem ensures_pure (a : α) :
    Ensures φ Q R h (pure a : ExceptT ε (Prog S) α) ↔ Q h a := Iff.rfl

/-- The exception is raised. -/
@[simp]
theorem ensures_raise (e : ε) :
    Ensures φ Q R h (raise e : ExceptT ε (Prog S) α) ↔ R h e := Iff.rfl

/-- What the first piece of code ensures is where the second starts; its exceptions pass. -/
theorem ensures_bind (c : ExceptT ε (Prog S) α) (f : α → ExceptT ε (Prog S) γ)
    {Q : List (Event S) → γ → Prop} :
    Ensures φ Q R h (c >>= f) ↔ Ensures φ (fun h' a => Ensures φ Q R h' (f a)) R h c := by
  have hrun : (c >>= f).run = c.run >>= ExceptT.bindCont f := rfl
  rw [Ensures, hrun, Prog.spec_bind, Ensures]
  refine iff_of_eq (congrArg (fun ψ => Prog.Spec φ ψ h c.run) ?_)
  funext h' r
  cases r <;> rfl

/-- Consequence, along the histories that extend the starting one. -/
theorem Ensures.mono {c : ExceptT ε (Prog S) α} (hc : Ensures φ Q R h c)
    (hφ : ∀ l o, φ (h ++ l) o → φ' (h ++ l) o) (hQ : ∀ l a, Q (h ++ l) a → Q' (h ++ l) a)
    (hR : ∀ l e, R (h ++ l) e → R' (h ++ l) e) : Ensures φ' Q' R' h c := by
  refine Prog.Spec.mono hc hφ fun l r hr => ?_
  cases r with
  | ok a => exact hQ l a hr
  | error e => exact hR l e hr

/-- Sequencing with an intermediate assertion. -/
theorem Ensures.bind {c : ExceptT ε (Prog S) α} {f : α → ExceptT ε (Prog S) γ}
    {Q' : List (Event S) → γ → Prop} (hc : Ensures φ Q R h c)
    (hf : ∀ l a, Q (h ++ l) a → Ensures φ Q' R (h ++ l) (f a)) : Ensures φ Q' R h (c >>= f) :=
  (ensures_bind c f).mpr (hc.mono (fun _ _ ho => ho) hf fun _ _ he => he)

/-- The call is allowed, and every answer to it leads on. -/
@[simp]
theorem ensures_call (o : S.Op) {Q : List (Event S) → S.Ans o → Prop} :
    Ensures φ Q R h (call o : ExceptT ε (Prog S) _) ↔ φ h o ∧ ∀ a, Q (h ++ [⟨o, a⟩]) a := Iff.rfl

/-- A result is returned or raised. -/
@[simp]
theorem ensures_ofExcept (r : Except ε α) :
    Ensures φ Q R h (ofExcept r : ExceptT ε (Prog S) α) ↔
      (∀ a, r = .ok a → Q h a) ∧ (∀ e, r = .error e → R h e) := by
  cases r with
  | error e => simp [ofExcept, Ensures, ExceptT.run, ExceptT.mk]
  | ok a => simp [ofExcept, Ensures, ExceptT.run, ExceptT.mk]

/-- Each branch may rely on the condition that leads to it. -/
theorem ensures_ite {p : Prop} [Decidable p] {c d : ExceptT ε (Prog S) α}
    (hc : p → Ensures φ Q R h c) (hd : ¬ p → Ensures φ Q R h d) :
    Ensures φ Q R h (if p then c else d) := by
  split
  · exact hc ‹_›
  · exact hd ‹_›

/-! ## Code that performs only some operations -/

section Only

variable {p : S.Op → Prop}

/-- Every operation that the code performs satisfies `p`. -/
def Only (p : S.Op → Prop) (c : ExceptT ε (Prog S) α) : Prop :=
  ∀ h, Ensures (fun _ o => p o) (fun _ _ => True) (fun _ _ => True) h c

theorem Only.pure (a : α) : Only p (Pure.pure a : ExceptT ε (Prog S) α) := fun _ => trivial

theorem Only.raise (e : ε) : Only p (Raising.raise e : ExceptT ε (Prog S) α) := fun _ => trivial

/-- A result makes no call. -/
theorem Only.ofExcept (r : Except ε α) : Only p (Raising.ofExcept r : ExceptT ε (Prog S) α) :=
  fun _ => (ensures_ofExcept r).mpr ⟨fun _ _ => trivial, fun _ _ => trivial⟩

/-- A call of the kind. -/
theorem Only.call {o : S.Op} (ho : p o) : Only p (Raising.call o : ExceptT ε (Prog S) _) := fun _ =>
  (ensures_call o).mpr ⟨ho, fun _ => trivial⟩

/-- Code after code makes the calls of both. -/
theorem Only.bind {c : ExceptT ε (Prog S) α} {f : α → ExceptT ε (Prog S) γ} (hc : Only p c)
    (hf : ∀ a, Only p (f a)) : Only p (c >>= f) := fun h => (hc h).bind fun l a _ => hf a (h ++ l)

/-- Whichever branch is taken. -/
theorem Only.ite {q : Prop} [Decidable q] {c d : ExceptT ε (Prog S) α} (hc : Only p c)
    (hd : Only p d) : Only p (if q then c else d) := by
  split
  · exact hc
  · exact hd

/-- An invariant that such operations keep. -/
theorem Only.invariant {c : ExceptT ε (Prog S) α} (hc : Only p c) {I : List (Event S) → Prop}
    (hI : ∀ (h : List (Event S)) (o : S.Op) (a : S.Ans o), p o → I h →
      I (h ++ [⟨o, a⟩])) (hh : I h) :
    Ensures (fun h' o => I h' ∧ p o) (fun h' _ => I h') (fun h' _ => I h') h c := by
  refine Prog.Spec.mono (Prog.Spec.invariant (hc h) hI hh) (fun _ _ ho => ho) fun l r hr => ?_
  cases r with
  | ok a => exact hr.1
  | error e => exact hr.1

end Only

/-! ## Completed runs -/

section Runs

variable {l : List (Event S)}

/-- A value that is returned satisfies the postcondition. -/
theorem Ensures.of_run_ok {c : ExceptT ε (Prog S) α} {a : α} (hc : Ensures φ Q R [] c)
    (hrun : Prog.Run c.run l (.ret (.ok a))) : Q l a := by
  have hspec : Prog.Spec φ _ [] c.run := hc
  exact hspec.ret_of_run hrun

/-- So does an exception that is raised. -/
theorem Ensures.of_run_error {c : ExceptT ε (Prog S) α} {e : ε} (hc : Ensures φ Q R [] c)
    (hrun : Prog.Run c.run l (.ret (.error e))) : R l e := by
  have hspec : Prog.Spec φ _ [] c.run := hc
  exact hspec.ret_of_run hrun

/-- A sequence that returns has returned from both parts. -/
theorem run_of_bind_ok {c : ExceptT ε (Prog S) α} {f : α → ExceptT ε (Prog S) γ} {b : γ}
    (hrun : Prog.Run (c >>= f).run l (.ret (.ok b))) :
    ∃ l₁ l₂ a, l = l₁ ++ l₂ ∧ Prog.Run c.run l₁ (.ret (.ok a)) ∧
      Prog.Run (f a).run l₂ (.ret (.ok b)) := by
  obtain ⟨l₁, l₂, r, rfl, hc, hf⟩ := Prog.Run.of_bind_ret (f := ExceptT.bindCont f) hrun
  cases r with
  | ok a => exact ⟨l₁, l₂, a, rfl, hc, hf⟩
  | error e =>
    obtain ⟨-, heq⟩ := Prog.Run.of_ret hf
    cases heq

/-- Runs of both parts make a run of a sequence. -/
theorem run_bind_ok {c : ExceptT ε (Prog S) α} {f : α → ExceptT ε (Prog S) γ}
    {l k : List (Event S)} {a : α} {r : Except ε γ} (hc : Prog.Run c.run l (.ret (.ok a)))
    (hf : Prog.Run (f a).run k (.ret r)) : Prog.Run (c >>= f).run (l ++ k) (.ret r) :=
  Prog.Run.bind (f := ExceptT.bindCont f) hc hf

/-- An exception ends a sequence. -/
theorem run_bind_error {c : ExceptT ε (Prog S) α} {f : α → ExceptT ε (Prog S) γ} {e : ε}
    (hc : Prog.Run c.run l (.ret (.error e))) : Prog.Run (c >>= f).run l (.ret (.error e)) := by
  have hrun := Prog.Run.bind (f := ExceptT.bindCont f) hc (.nil _)
  rwa [List.append_nil] at hrun

/-- A completed call has an answer. -/
theorem run_of_call {o : S.Op} {r : Except ε (S.Ans o)}
    (hrun : Prog.Run (call o : ExceptT ε (Prog S) _).run l (.ret r)) :
    ∃ a, l = [⟨o, a⟩] ∧ r = .ok a := by
  cases hrun with
  | @cons _ _ a _ _ hrun =>
    obtain ⟨rfl, heq⟩ := Prog.Run.of_ret hrun
    cases heq
    exact ⟨a, rfl, rfl⟩

/-- For some answers the code ends with an outcome that satisfies `Q`. -/
def May (Q : Except ε α → Prop) (c : ExceptT ε (Prog S) α) : Prop :=
  ∃ l r, Prog.Run c.run l (.ret r) ∧ Q r

variable {Q : Except ε γ → Prop}

/-- A value is returned. -/
theorem May.pure {a : γ} (ha : Q (.ok a)) : May Q (Pure.pure a : ExceptT ε (Prog S) γ) :=
  ⟨[], .ok a, .nil _, ha⟩

/-- An exception is raised. -/
theorem May.raise {e : ε} (he : Q (.error e)) : May Q (Raising.raise e : ExceptT ε (Prog S) γ) :=
  ⟨[], .error e, .nil _, he⟩

/-- A run of the first piece of code, and what the second may do from there. -/
theorem May.bind {c : ExceptT ε (Prog S) α} {f : α → ExceptT ε (Prog S) γ} {a : α}
    (hc : Prog.Run c.run l (.ret (.ok a))) (hf : May Q (f a)) : May Q (c >>= f) := by
  obtain ⟨l', r, hrun, hr⟩ := hf
  exact ⟨l ++ l', r, run_bind_ok hc hrun, hr⟩

/-- An operation gets the answer `a`. -/
theorem May.call {o : S.Op} {f : S.Ans o → ExceptT ε (Prog S) γ} (a : S.Ans o) (hf : May Q (f a)) :
    May Q (Raising.call o >>= f) :=
  May.bind (.cons (.nil _)) hf

end Runs

end Raising

end Effects
