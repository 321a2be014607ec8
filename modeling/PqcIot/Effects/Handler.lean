import PqcIot.Effects.Program

/-!
# Handlers

A handler implements each operation of a signature by a program over another one;
`Prog.interp h p` runs `p` with its operations implemented by `h`. A run of the interpreted
program is a run of `p` in which the handler's own runs are spliced (`run_interp`).

`Prog.answer` implements the operations of one half of a sum of signatures by a function and
`Prog.resolve` by a fixed sequence of answers; `Prog.Lockstep` relates two programs that perform the
same operations and end in related results.
-/

namespace Effects

namespace Prog

variable {S T E : Signature} {α γ : Type}

/-- Implement each operation by a program over another signature. -/
def interp (h : ∀ o : S.Op, Prog T (S.Ans o)) : Prog S α → Prog T α
  | .ret a => .ret a
  | .op o k => h o >>= fun a => interp h (k a)

section Interp

variable (h : ∀ o : S.Op, Prog T (S.Ans o))

@[simp]
theorem interp_ret (a : α) : interp h (.ret a) = .ret a := rfl

/-- An operation is carried out, and the rest from its answer. -/
@[simp]
theorem interp_op (o : S.Op) (k : S.Ans o → Prog S α) :
    interp h (.op o k) = h o >>= fun a => interp h (k a) := rfl

/-- A single operation is what the handler makes of it. -/
@[simp]
theorem interp_call (o : S.Op) : interp h (call o) = h o := bind_ret (h o)

/-- Carrying out is compositional. -/
@[simp]
theorem interp_bind (p : Prog S α) (f : α → Prog S γ) :
    interp h (p >>= f) = interp h p >>= fun a => interp h (f a) := by
  induction p with
  | ret a => rfl
  | op o k ih => simp only [op_bind, interp_op, ih, bind_bind]

/-- `Splice h log tr`: `tr` is `log` with every event replaced by a completed run of its handler
that returned the recorded answer. -/
inductive Splice : List (Event S) → List (Event T) → Prop
  | nil : Splice [] []
  | cons {o : S.Op} {a : S.Ans o} {seg : List (Event T)} {log : List (Event S)}
      {tr : List (Event T)} :
      Run (h o) seg (.ret a) → Splice log tr → Splice (⟨o, a⟩ :: log) (seg ++ tr)

/-- The state of an interpreted program after `tr`: between two operations of the program, or
inside the handler of one of them. -/
inductive Suspended (q : Prog S α) : List (Event T) → Prog T α → Prop
  | between : Suspended q [] (interp h q)
  | inside {o : S.Op} {k : S.Ans o → Prog S α} {tr : List (Event T)} {r : Prog T (S.Ans o)} :
      q = .op o k → Run (h o) tr r → Suspended q tr (r >>= fun a => interp h (k a))

variable {h}

/-- No handler is at work when the program has returned. -/
theorem Suspended.eq_nil {a : α} {tr : List (Event T)} {r : Prog T α}
    (hsusp : Suspended h (.ret a) tr r) : tr = [] := by
  cases hsusp with
  | between => rfl
  | inside hq => cases hq

/-- Every run of an interpreted program is a run of the program with the handler's runs spliced
in, up to a last operation whose handler may not have finished. If the one has returned, so has the
other. -/
theorem run_interp {p : Prog S α} {tr : List (Event T)} {q' : Prog T α}
    (hrun : Run (interp h p) tr q') :
    ∃ log q tr₁ tr₂, tr = tr₁ ++ tr₂ ∧ Run p log q ∧ Splice h log tr₁ ∧
      Suspended h q tr₂ q' ∧ ∀ b, q' = .ret b → q = .ret b := by
  induction p generalizing tr with
  | ret a =>
    obtain ⟨rfl, rfl⟩ := hrun.of_ret
    exact ⟨[], .ret a, [], [], rfl, .nil _, .nil, .between, fun b hb => by cases hb; rfl⟩
  | op o k ih =>
    rcases hrun.of_bind with ⟨o', k', hr, rfl⟩ | ⟨l₁, l₂, a, rfl, hl₁, hl₂⟩
    · exact ⟨[], .op o k, [], tr, rfl, .nil _, .nil, .inside (r := .op o' k') rfl hr, fun b hb => by
        cases hb⟩
    · obtain ⟨log, q, tr₁, tr₂, rfl, hlog, hsplice, hsusp, hret⟩ := ih a hl₂
      exact ⟨⟨o, a⟩ :: log, q, l₁ ++ tr₁, tr₂, (List.append_assoc ..).symm, .cons hlog,
        .cons hl₁ hsplice, hsusp, hret⟩

/-- Splicing distributes over concatenation of logs. -/
theorem Splice.append {l₁ l₂ : List (Event S)} {t₁ t₂ : List (Event T)}
    (h₁ : Splice h l₁ t₁) (h₂ : Splice h l₂ t₂) : Splice h (l₁ ++ l₂) (t₁ ++ t₂) := by
  induction h₁ with
  | nil => exact h₂
  | cons hseg _ ih => simpa only [List.cons_append, List.append_assoc] using .cons hseg ih

end Interp

/-! ## Operations answered by a function -/

/-- Answer the operations of the left half of a signature by a function. -/
def answer (g : ∀ o : S.Op, S.Ans o) : Prog (S.sum T) α → Prog T α
  | .ret a => .ret a
  | .op (.inl o) k => answer g (k (g o))
  | .op (.inr o) k => .op o fun a => answer g (k a)

section Answer

variable (g : ∀ o : S.Op, S.Ans o)

@[simp]
theorem answer_ret (a : α) : answer (T := T) g (.ret a) = .ret a := rfl

/-- An operation of the answered kind gets its answer. -/
@[simp]
theorem answer_inl (o : S.Op) (k : S.Ans o → Prog (S.sum T) α) :
    answer g (.op (.inl o) k) = answer g (k (g o)) := rfl

/-- The others stay. -/
@[simp]
theorem answer_inr (o : T.Op) (k : T.Ans o → Prog (S.sum T) α) :
    answer g (.op (.inr o) k) = .op o fun a => answer g (k a) := rfl

/-- Answering is compositional. -/
@[simp]
theorem answer_bind (p : Prog (S.sum T) α) (f : α → Prog (S.sum T) γ) :
    answer g (p >>= f) = answer g p >>= fun a => answer g (f a) := by
  induction p with
  | ret a => rfl
  | op o k ih =>
    cases o with
    | inl o => exact ih (g o)
    | inr o => exact congrArg (Prog.op o) (funext ih)

/-- A completed run of the remaining operations comes from a run in which the function has
answered. -/
theorem run_of_answer {p : Prog (S.sum T) α} {tr : List (Event T)} {b : α}
    (hrun : Run (answer g p) tr (.ret b)) :
    ∃ log, Run p log (.ret b) ∧ (∀ o a, ⟨.inl o, a⟩ ∈ log → a = g o) ∧
      ∀ o a, ⟨.inr o, a⟩ ∈ log ↔ ⟨o, a⟩ ∈ tr := by
  induction p generalizing tr with
  | ret a =>
    obtain ⟨rfl, heq⟩ := hrun.of_ret
    cases heq
    exact ⟨[], .nil _, nofun, fun _ _ => iff_of_false nofun nofun⟩
  | op o k ih =>
    -- An operation that is answered leaves no event.
    match o, k, ih, hrun with
    | .inl o, k, ih, hrun =>
      obtain ⟨log, hlog, hans, hvisible⟩ := ih (g o) hrun
      refine ⟨⟨.inl o, g o⟩ :: log, .cons hlog, ?_, fun o' a => ?_⟩
      · rintro o' a (_ | ⟨_, hmem⟩)
        · rfl
        · exact hans o' a hmem
      · rw [← hvisible o' a, List.mem_cons, or_iff_right (by rintro ⟨⟩)]
    | .inr o, k, ih, .cons (a := x) hrun =>
      obtain ⟨log, hlog, hans, hvisible⟩ := ih _ hrun
      refine ⟨⟨.inr o, x⟩ :: log, .cons hlog, ?_, fun o' a => ?_⟩
      · rintro o' a (_ | ⟨_, hmem⟩)
        exact hans o' a hmem
      · rw [List.mem_cons, List.mem_cons, hvisible o' a]
        refine or_congr_left ⟨?_, ?_⟩
        · rintro ⟨⟩
          rfl
        · rintro ⟨⟩
          rfl

end Answer

/-- A completed run of a program with a function applied to its result. -/
theorem run_of_map {f : α → γ} {p : Prog S α} {log : List (Event S)} {b : γ}
    (hrun : Run (f <$> p) log (.ret b)) : ∃ a, Run p log (.ret a) ∧ f a = b := by
  rw [map_eq_bind] at hrun
  obtain ⟨l₁, l₂, a, rfl, hp, hret⟩ := hrun.of_bind_ret
  obtain ⟨rfl, heq⟩ := hret.of_ret
  cases heq
  exact ⟨a, by rwa [List.append_nil], rfl⟩

/-- The completed runs of a program with a function applied to its result. -/
theorem run_map_iff {f : α → γ} {p : Prog S α} {log : List (Event S)} {b : γ} :
    Run (f <$> p) log (.ret b) ↔ ∃ a, Run p log (.ret a) ∧ f a = b := by
  refine ⟨run_of_map, ?_⟩
  rintro ⟨a, hrun, rfl⟩
  exact hrun.bind_left fun a => .ret (f a)

/-! ## Programs in lockstep -/

/-- `Lockstep R p q`: the two programs perform the same operations, whatever the answers, and end
in results related by `R`. -/
inductive Lockstep (R : α → γ → Prop) : Prog S α → Prog S γ → Prop
  | ret {a : α} {b : γ} : R a b → Lockstep R (.ret a) (.ret b)
  | op {o : S.Op} {k : S.Ans o → Prog S α} {k' : S.Ans o → Prog S γ} :
      (∀ a, Lockstep R (k a) (k' a)) → Lockstep R (.op o k) (.op o k')

namespace Lockstep

variable {α' γ' : Type} {R : α → γ → Prop} {Q : α' → γ' → Prop}

/-- Sequences are in lockstep if their parts are. -/
theorem bind {p : Prog S α} {q : Prog S γ} {f : α → Prog S α'} {g : γ → Prog S γ'}
    (h : Lockstep R p q) (hf : ∀ a b, R a b → Lockstep Q (f a) (g b)) :
    Lockstep Q (p >>= f) (q >>= g) := by
  induction h with
  | ret hab => exact hf _ _ hab
  | op _ ih => exact .op ih

/-- A weaker relation of the results. -/
theorem mono {R' : α → γ → Prop} {p : Prog S α} {q : Prog S γ} (h : Lockstep R p q)
    (hR : ∀ a b, R a b → R' a b) : Lockstep R' p q := by
  induction h with
  | ret hab => exact .ret (hR _ _ hab)
  | op _ ih => exact .op ih

/-- Programs in lockstep up to a function of the result are equal up to it. -/
theorem map_eq {f : α → γ} {p : Prog S α} {q : Prog S γ}
    (h : Lockstep (fun a b => f a = b) p q) : f <$> p = q := by
  induction h with
  | ret hab => exact congrArg Prog.ret hab
  | op _ ih => exact congrArg (Prog.op _) (funext ih)

/-- Programs in lockstep up to functions of the results are equal up to them. -/
theorem map_eq_map {δ : Type} {f : α → δ} {g : γ → δ} {p : Prog S α} {q : Prog S γ}
    (h : Lockstep (fun a b => f a = g b) p q) : f <$> p = g <$> q := by
  induction h with
  | ret hab => exact congrArg Prog.ret hab
  | op _ ih => exact congrArg (Prog.op _) (funext ih)

end Lockstep

/-! ## Answers fixed in advance -/

/-- Answer the operations of the right half of a signature by the sequence `f`, the `n`-th of them
by `f n`. An operation without an answer never returns: the result is `none`. -/
def resolve (f : ℕ → (o : E.Op) → Option (E.Ans o)) : ℕ → Prog (S.sum E) α → Prog S (Option α)
  | _, .ret a => .ret (some a)
  | n, .op (.inl o) k => .op o fun a => resolve f n (k a)
  | n, .op (.inr o) k => (f n o).elim (.ret none) fun a => resolve f (n + 1) (k a)

section Resolve

variable (f : ℕ → (o : E.Op) → Option (E.Ans o)) (n : ℕ)

@[simp]
theorem resolve_ret (a : α) : resolve (S := S) f n (.ret a) = .ret (some a) := rfl

/-- The others stay. -/
@[simp]
theorem resolve_inl (o : S.Op) (k : S.Ans o → Prog (S.sum E) α) :
    resolve f n (.op (.inl o) k) = .op o fun a => resolve f n (k a) := rfl

variable {f n} in

/-- An operation that the script answers. -/
theorem resolve_inr {o : E.Op} {k : E.Ans o → Prog (S.sum E) α} {a : E.Ans o}
    (h : f n o = some a) : resolve f n (.op (.inr o) k) = resolve f (n + 1) (k a) := by
  have hresolve : resolve f n (.op (.inr o) k) =
      (f n o).elim (.ret none) fun a => resolve f (n + 1) (k a) := rfl
  rw [hresolve, h]
  rfl

end Resolve

end Prog

end Effects
