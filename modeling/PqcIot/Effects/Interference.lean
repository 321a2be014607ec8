import PqcIot.Effects.Program

/-!
# Programs on a shared state

A program whose operations act on a state that others change between them. What the others may do is
a preorder on the states, the *rely*; `Under ψ s p` says that from the state `s`, whatever they do,
the program `p` ends with a result that satisfies `ψ`, and goes on doing so while they act.

* `under_bind` composes, `Under.interfere` and `Under.step` keep it along the steps of a system;
* `Under.ret` reads off the result.
-/

namespace Effects

variable {S : Signature} {α γ σ : Type}

/-- How operations act on a state. -/
structure Store (S : Signature) (σ : Type) where
  /-- The answer to an operation. -/
  answer : σ → ∀ o : S.Op, S.Ans o
  /-- The state after an operation. -/
  next : σ → S.Op → σ

namespace Store

variable (M : Store S σ)

/-- Run a program while the state is its own. -/
def exec : σ → Prog S α → α × σ
  | s, .ret a => (a, s)
  | s, .op o k => exec (M.next s o) (k (M.answer s o))

@[simp]
theorem exec_ret (s : σ) (a : α) : M.exec s (.ret a) = (a, s) := rfl

@[simp]
theorem exec_op (s : σ) (o : S.Op) (k : S.Ans o → Prog S α) :
    M.exec s (.op o k) = M.exec (M.next s o) (k (M.answer s o)) := rfl

/-- The operations of such a run, with their answers. -/
def log : σ → Prog S α → List (Event S)
  | _, .ret _ => []
  | s, .op o k => ⟨o, M.answer s o⟩ :: log (M.next s o) (k (M.answer s o))

end Store

/-- A shared state: others change it between the operations. -/
structure Shared (S : Signature) (σ : Type) extends Store S σ where
  /-- The changes that others make. -/
  Rely : σ → σ → Prop
  refl : ∀ s, Rely s s
  trans : ∀ {s₁ s₂ s₃}, Rely s₁ s₂ → Rely s₂ s₃ → Rely s₁ s₃

namespace Shared

variable (M : Shared S σ)

/-- From this state the program ends in `ψ`, with the others acting before each operation and before
the result is used. -/
def Under (ψ : σ → α → Prop) : σ → Prog S α → Prop
  | s, .ret a => ∀ s', M.Rely s s' → ψ s' a
  | s, .op o k => ∀ s', M.Rely s s' → Under ψ (M.next s' o) (k (M.answer s' o))

variable {M} {ψ ψ' : σ → α → Prop} {s s' : σ}

@[simp]
theorem under_ret (a : α) : M.Under ψ s (.ret a) ↔ ∀ s', M.Rely s s' → ψ s' a := Iff.rfl

@[simp]
theorem under_op (o : S.Op) (k : S.Ans o → Prog S α) : M.Under ψ s (.op o k) ↔
    ∀ s', M.Rely s s' → M.Under ψ (M.next s' o) (k (M.answer s' o)) := Iff.rfl

/-- The others act. -/
theorem Under.interfere {p : Prog S α} (h : M.Under ψ s p) (hs : M.Rely s s') :
    M.Under ψ s' p := by
  cases p with
  | ret a => exact fun s'' hs'' => h s'' (M.trans hs hs'')
  | op o k => exact fun s'' hs'' => h s'' (M.trans hs hs'')

/-- The program acts. -/
theorem Under.step {o : S.Op} {k : S.Ans o → Prog S α} (h : M.Under ψ s (.op o k)) :
    M.Under ψ (M.next s o) (k (M.answer s o)) :=
  h s (M.refl s)

/-- The program has ended. -/
theorem Under.ret {a : α} (h : M.Under ψ s (.ret a)) : ψ s a :=
  h s (M.refl s)

/-- What is ensured may be weakened. -/
theorem Under.mono {p : Prog S α} (h : M.Under ψ s p) (hψ : ∀ s a, ψ s a → ψ' s a) :
    M.Under ψ' s p := by
  induction p generalizing s with
  | ret a => exact fun s' hs' => hψ _ _ (h s' hs')
  | op o k ih => exact fun s' hs' => ih _ (h s' hs')

/-- The second part of a sequence starts where the first has ended. -/
theorem under_bind {ψ : σ → γ → Prop} (p : Prog S α) (f : α → Prog S γ) :
    M.Under ψ s (p >>= f) ↔ M.Under (fun s' a => M.Under ψ s' (f a)) s p := by
  induction p generalizing s with
  | ret a =>
    -- The others may act before the second part starts; that changes nothing.
    exact ⟨fun h s' hs' => h.interfere hs', fun h => h.ret⟩
  | op o k ih =>
    rw [Prog.op_bind, under_op, under_op]
    exact forall_congr' fun s' => imp_congr_right fun _ => ih _

end Shared

end Effects
