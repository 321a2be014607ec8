import Mathlib.Data.List.Basic
import Mathlib.Tactic.Common

/-!
# Programs over a signature of external calls

A program is a tree: it has returned, or it performs an operation of a signature and goes on with
the answer. The tree fixes what a program does for *every* answer of its environment, so one
definition serves a run on real sockets, a run against an adversary, and a run on symbolic bytes.

The module introduces:

* `Prog S α` — programs over the signature `S` that return `α`, with `Monad` structure;
* `Run p log q` — answering the operations of `p` as recorded in `log` leads to the program `q`;
* `Spec φ ψ h p` — after the history `h`, every operation `o` that `p` performs satisfies
  `φ h' o` at the history `h'` it is performed at, and every result satisfies `ψ` there.

`Spec` computes through the program text (`spec_bind`, `spec_op`), and `Spec.of_run`,
`Spec.op_of_run`, `Spec.ret_of_run` read it off a run.
-/

namespace Effects

/-- A signature: the operations a program may perform, and the type of the answer to each. -/
structure Signature where
  /-- The operations, with their arguments. -/
  Op : Type
  /-- The type of the answer to an operation. -/
  Ans : Op → Type

/-- The operations of either signature. -/
abbrev Signature.sum (S T : Signature) : Signature :=
  { Op := S.Op ⊕ T.Op, Ans := Sum.elim S.Ans T.Ans }

/-- Programs over `S`: a returned value, or an operation with what to do with its answer. -/
inductive Prog (S : Signature) (α : Type) : Type
  | ret (a : α)
  | op (o : S.Op) (k : S.Ans o → Prog S α)

/-- An operation together with the answer it got. -/
abbrev Event (S : Signature) : Type := (o : S.Op) × S.Ans o

variable {S T : Signature} {α γ δ : Type}

namespace Prog

/-- Sequencing: the second program continues at every return of the first. -/
def bind : Prog S α → (α → Prog S γ) → Prog S γ
  | .ret a, f => f a
  | .op o k, f => .op o fun a => bind (k a) f

instance : Monad (Prog S) where
  pure := .ret
  bind := bind

/-- Perform one operation and return its answer. -/
def call (o : S.Op) : Prog S (S.Ans o) := .op o .ret

@[simp]
theorem pure_eq_ret (a : α) : (pure a : Prog S α) = .ret a := rfl

@[simp]
theorem ret_bind (a : α) (f : α → Prog S γ) : (Prog.ret a >>= f) = f a := rfl

/-- An operation comes first, whatever follows the program. -/
@[simp]
theorem op_bind (o : S.Op) (k : S.Ans o → Prog S α) (f : α → Prog S γ) :
    (Prog.op o k >>= f) = .op o fun a => k a >>= f := rfl

/-- The same for a single operation. -/
@[simp]
theorem call_bind (o : S.Op) (f : S.Ans o → Prog S γ) : (call o >>= f) = .op o f := rfl

/-- Mapping is returning what the function gives. -/
@[simp]
theorem map_eq_bind (f : α → γ) (p : Prog S α) : f <$> p = p >>= fun a => .ret (f a) := rfl

/-- Returning at the end changes nothing. -/
theorem bind_ret (p : Prog S α) : (p >>= Prog.ret) = p := by
  induction p with
  | ret a => rfl
  | op o k ih =>
    rw [op_bind]
    exact congrArg (Prog.op o) (funext ih)

/-- Sequencing is associative. -/
theorem bind_bind (p : Prog S α) (f : α → Prog S γ) (g : γ → Prog S δ) :
    (p >>= f >>= g) = p >>= fun a => f a >>= g := by
  induction p with
  | ret a => rfl
  | op o k ih =>
    simp only [op_bind]
    exact congrArg (Prog.op o) (funext ih)

instance : LawfulMonad (Prog S) :=
  LawfulMonad.mk' _ bind_ret (fun _ _ => rfl) bind_bind

/-! ## Runs -/

/-- `Run p log q`: the program `p`, its operations answered as in `log`, goes to `q`. -/
inductive Run : Prog S α → List (Event S) → Prog S α → Prop
  | nil (p : Prog S α) : Run p [] p
  | cons {o : S.Op} {k : S.Ans o → Prog S α} {a : S.Ans o} {log : List (Event S)}
      {q : Prog S α} : Run (k a) log q → Run (.op o k) (⟨o, a⟩ :: log) q

/-- A returned program performs nothing more. -/
theorem Run.of_ret {a : α} {log : List (Event S)} {q : Prog S α}
    (h : Run (.ret a) log q) : log = [] ∧ q = .ret a := by
  cases h
  exact ⟨rfl, rfl⟩

/-- Runs compose. -/
theorem Run.trans {p q r : Prog S α} {l₁ l₂ : List (Event S)}
    (h₁ : Run p l₁ q) (h₂ : Run q l₂ r) : Run p (l₁ ++ l₂) r := by
  induction h₁ with
  | nil p => exact h₂
  | cons _ ih => exact .cons (ih h₂)

/-- A run can be cut anywhere. -/
theorem Run.split {p r : Prog S α} {l₁ l₂ : List (Event S)} (h : Run p (l₁ ++ l₂) r) :
    ∃ q, Run p l₁ q ∧ Run q l₂ r := by
  induction l₁ generalizing p with
  | nil => exact ⟨p, .nil p, h⟩
  | cons e l₁ ih =>
    cases h with
    | cons h =>
      obtain ⟨q, hq, hr⟩ := ih h
      exact ⟨q, .cons hq, hr⟩

/-- The answers of a log are those of an environment, which may look at what has happened. -/
def AnsweredBy (env : List (Event S) → ∀ o : S.Op, S.Ans o) :
    List (Event S) → List (Event S) → Prop
  | _, [] => True
  | h, e :: l => e.2 = env h e.1 ∧ AnsweredBy env (h ++ [e]) l

/-- In every environment a program comes to an end. -/
theorem exists_run (env : List (Event S) → ∀ o : S.Op, S.Ans o) (h : List (Event S))
    (p : Prog S α) : ∃ log a, AnsweredBy env h log ∧ Run p log (.ret a) := by
  induction p generalizing h with
  | ret a => exact ⟨[], a, trivial, .nil _⟩
  | op o k ih =>
    obtain ⟨log, a, hans, hrun⟩ := ih (env h o) (h ++ [⟨o, env h o⟩])
    exact ⟨⟨o, env h o⟩ :: log, a, ⟨rfl, hans⟩, .cons hrun⟩

/-- The result in an environment that does not change. -/
def eval (env : ∀ o : S.Op, S.Ans o) : Prog S α → α
  | .ret a => a
  | .op o k => eval env (k (env o))

@[simp]
theorem eval_ret (env : ∀ o : S.Op, S.Ans o) (a : α) : eval env (.ret a) = a := rfl

/-- An operation is answered by the environment. -/
@[simp]
theorem eval_op (env : ∀ o : S.Op, S.Ans o) (o : S.Op) (k : S.Ans o → Prog S α) :
    eval env (.op o k) = eval env (k (env o)) := rfl

/-- Evaluation is compositional. -/
@[simp]
theorem eval_bind (env : ∀ o : S.Op, S.Ans o) (p : Prog S α) (f : α → Prog S γ) :
    eval env (p >>= f) = eval env (f (eval env p)) := by
  induction p with
  | ret a => rfl
  | op o k ih => exact ih (env o)

/-- Extending the first part of a sequence extends the sequence. -/
theorem Run.bind_left {p q : Prog S α} {log : List (Event S)} (h : Run p log q)
    (f : α → Prog S γ) : Run (p >>= f) log (q >>= f) := by
  induction h with
  | nil p => exact .nil _
  | cons _ ih => exact .cons ih

/-- Runs of the parts of a sequence make a run of the sequence. -/
theorem Run.bind {p : Prog S α} {f : α → Prog S γ} {l₁ l₂ : List (Event S)} {a : α} {q : Prog S γ}
    (hp : Run p l₁ (.ret a)) (hf : Run (f a) l₂ q) : Run (p >>= f) (l₁ ++ l₂) q :=
  (hp.bind_left f).trans hf

/-- A run of a sequence is at an operation of its first part, or has completed it. -/
theorem Run.of_bind {p : Prog S α} {f : α → Prog S γ} {log : List (Event S)} {q : Prog S γ}
    (h : Run (p >>= f) log q) :
    (∃ o k, Run p log (.op o k) ∧ q = .op o fun a => k a >>= f) ∨
      ∃ l₁ l₂ a, log = l₁ ++ l₂ ∧ Run p l₁ (.ret a) ∧ Run (f a) l₂ q := by
  induction p generalizing log with
  | ret a => exact .inr ⟨[], log, a, rfl, .nil _, h⟩
  | op o k ih =>
    cases h with
    | nil => exact .inl ⟨o, k, .nil _, rfl⟩
    | cons h =>
      rcases ih _ h with ⟨o', k', hp', rfl⟩ | ⟨l₁, l₂, a, rfl, hp, hf⟩
      · exact .inl ⟨o', k', .cons hp', rfl⟩
      · exact .inr ⟨_ :: l₁, l₂, a, rfl, .cons hp, hf⟩

/-- A completed run of a sequence completes both parts. -/
theorem Run.of_bind_ret {p : Prog S α} {f : α → Prog S γ} {log : List (Event S)} {b : γ}
    (h : Run (p >>= f) log (.ret b)) :
    ∃ l₁ l₂ a, log = l₁ ++ l₂ ∧ Run p l₁ (.ret a) ∧ Run (f a) l₂ (.ret b) := by
  rcases h.of_bind with ⟨o, k, -, heq⟩ | h
  · cases heq
  · exact h

/-! ## Specifications over histories -/

/-- After the history `h`, each operation of the program satisfies `φ` at the history it is
performed at, and each result satisfies `ψ` at the history it is returned at. -/
def Spec (φ : List (Event S) → S.Op → Prop) (ψ : List (Event S) → α → Prop) :
    List (Event S) → Prog S α → Prop
  | h, .ret a => ψ h a
  | h, .op o k => φ h o ∧ ∀ a, Spec φ ψ (h ++ [⟨o, a⟩]) (k a)

section Spec

variable {φ φ' : List (Event S) → S.Op → Prop} {ψ ψ' : List (Event S) → α → Prop}
  {h : List (Event S)}

/-- The postcondition holds where the program returns. -/
@[simp]
theorem spec_ret (a : α) : Spec φ ψ h (.ret a) ↔ ψ h a := Iff.rfl

/-- The operation is allowed, and every answer leads on. -/
@[simp]
theorem spec_op (o : S.Op) (k : S.Ans o → Prog S α) :
    Spec φ ψ h (.op o k) ↔ φ h o ∧ ∀ a, Spec φ ψ (h ++ [⟨o, a⟩]) (k a) := Iff.rfl

/-- The specification of a sequence is that of its first part, with the specification of the
second as postcondition. -/
theorem spec_bind (p : Prog S α) (f : α → Prog S γ) {ψ : List (Event S) → γ → Prop} :
    Spec φ ψ h (p >>= f) ↔ Spec φ (fun h' a => Spec φ ψ h' (f a)) h p := by
  induction p generalizing h with
  | ret a => rfl
  | op o k ih => simp only [op_bind, spec_op, ih]

/-- Specifications weaken, along the histories that extend the starting one. -/
theorem Spec.mono {p : Prog S α} (hp : Spec φ ψ h p)
    (hφ : ∀ l o, φ (h ++ l) o → φ' (h ++ l) o)
    (hψ : ∀ l a, ψ (h ++ l) a → ψ' (h ++ l) a) : Spec φ' ψ' h p := by
  induction p generalizing h with
  | ret a => simpa using hψ [] a (by simpa using hp)
  | op o k ih =>
    refine ⟨by simpa using hφ [] o (by simpa using hp.1), fun a => ih a (hp.2 a) ?_ ?_⟩
    · intro l o' hl
      simpa using hφ (⟨o, a⟩ :: l) o' (by simpa using hl)
    · intro l r hl
      simpa using hψ (⟨o, a⟩ :: l) r (by simpa using hl)

/-- A specification survives a run, at the longer history. -/
theorem Spec.of_run {p q : Prog S α} {log : List (Event S)} (hp : Spec φ ψ h p)
    (hrun : Run p log q) : Spec φ ψ (h ++ log) q := by
  induction hrun generalizing h with
  | nil p => simpa using hp
  | cons _ ih => simpa using ih (hp.2 _)

/-- The result of a completed run satisfies the postcondition at its log. -/
theorem Spec.ret_of_run {p : Prog S α} {log : List (Event S)} {a : α}
    (hp : Spec φ ψ [] p) (hrun : Run p log (.ret a)) : ψ log a := by
  simpa using hp.of_run hrun

/-- Every operation in the log of a run satisfies `φ` at the part of the log before it. -/
theorem Spec.op_of_run {p q : Prog S α} {l₁ l₂ : List (Event S)} {e : Event S}
    (hp : Spec φ ψ [] p) (hrun : Run p (l₁ ++ e :: l₂) q) : φ l₁ e.1 := by
  obtain ⟨r, hr, hq⟩ := hrun.split
  have hspec : Spec φ ψ l₁ r := by simpa using hp.of_run hr
  cases hq with
  | cons _ => exact hspec.1

/-- If every operation satisfies `p`, so does every event that a run adds to the history. -/
theorem Spec.forall_events {p : S.Op → Prop} {q : Prog S α}
    (hq : Spec (fun _ o => p o) ψ h q) :
    Spec (fun _ o => p o) (fun h' a => ψ h' a ∧ ∃ tail, (∀ e ∈ tail, p e.1) ∧ h' = h ++ tail)
      h q := by
  induction q generalizing h with
  | ret a => exact ⟨hq, [], by simp⟩
  | op o k ih =>
    refine ⟨hq.1, fun a => (ih a (hq.2 a)).mono (fun _ _ ho => ho) ?_⟩
    rintro l b ⟨hb, tail, htail, heq⟩
    refine ⟨hb, ⟨o, a⟩ :: tail, ?_, by simpa using heq⟩
    rintro e (_ | ⟨_, he⟩)
    · exact hq.1
    · exact htail e he

/-- An invariant that every operation of a program keeps holds at each of them and at the end. -/
theorem Spec.invariant {p : S.Op → Prop} {I : List (Event S) → Prop} {q : Prog S α}
    (hq : Spec (fun _ o => p o) ψ h q)
    (hI : ∀ (h : List (Event S)) (o : S.Op) (a : S.Ans o), p o → I h → I (h ++ [⟨o, a⟩]))
    (hh : I h) : Spec (fun h' o => I h' ∧ p o) (fun h' a => I h' ∧ ψ h' a) h q := by
  induction q generalizing h with
  | ret a => exact ⟨hh, hq⟩
  | op o k ih => exact ⟨⟨hh, hq.1⟩, fun a => ih a (hq.2 a) (hI h o a hq.1 hh)⟩

/-- Every program satisfies the trivial specification. -/
theorem Spec.trivial (p : Prog S α) : Spec (fun _ _ => True) (fun _ _ => True) h p := by
  induction p generalizing h with
  | ret a => exact True.intro
  | op o k ih => exact ⟨True.intro, fun a => ih a⟩

/-- The postcondition may refer to the run of the program itself. -/
theorem Spec.with_run {p : Prog S α} (hp : Spec φ ψ h p) :
    Spec φ (fun h' a => ψ h' a ∧ ∃ l, h' = h ++ l ∧ Run p l (.ret a)) h p := by
  induction p generalizing h with
  | ret a => exact ⟨hp, [], (List.append_nil h).symm, .nil _⟩
  | op o k ih =>
    refine ⟨hp.1, fun a => (ih a (hp.2 a)).mono (fun _ _ ho => ho) ?_⟩
    rintro l b ⟨hb, l', heq, hrun⟩
    refine ⟨hb, ⟨o, a⟩ :: l', ?_, .cons hrun⟩
    rw [heq, List.append_assoc]
    rfl

end Spec

end Prog

end Effects
