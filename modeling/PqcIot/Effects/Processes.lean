import Mathlib.Logic.Function.Basic
import PqcIot.Effects.Interference
import PqcIot.Effects.Transition

/-!
# Processes on a store

Any number of programs that act on one store, an operation at a time and in any order; each of them
may be killed between two operations. A process keeps the record of what it has done.
-/

namespace Effects

variable {S : Signature} {σ ι α : Type}

/-- A program that is being run. -/
structure Process (S : Signature) (α : Type) where
  /-- The operations so far. -/
  log : List (Event S)
  rest : Prog S α
  killed : Bool

/-- The process has returned, or has been killed. -/
def Process.Ended (p : Process S α) : Prop := p.killed = true ∨ ∃ a, p.rest = .ret a

/-- The store, and the processes on it. -/
structure Processes (S : Signature) (σ ι α : Type) where
  state : σ
  procs : ι → Process S α

/-- What happens to a process. -/
inductive Action where
  | op
  | kill

namespace Processes

/-- The programs before any has begun. -/
def start (state : σ) (program : ι → Prog S α) : Processes S σ ι α :=
  ⟨state, fun i => ⟨[], program i, false⟩⟩

variable [DecidableEq ι]

/-- One process and the store are others. -/
def set (s : Processes S σ ι α) (i : ι) (state : σ) (p : Process S α) : Processes S σ ι α :=
  ⟨state, Function.update s.procs i p⟩

@[simp]
theorem set_state (s : Processes S σ ι α) (i : ι) (state : σ) (p : Process S α) :
    (s.set i state p).state = state := rfl

@[simp]
theorem set_procs_self (s : Processes S σ ι α) (i : ι) (state : σ) (p : Process S α) :
    (s.set i state p).procs i = p := Function.update_self ..

theorem set_procs_of_ne (s : Processes S σ ι α) {i j : ι} (state : σ) (p : Process S α)
    (h : j ≠ i) : (s.set i state p).procs j = s.procs j := Function.update_of_ne h ..

/-- One process goes on, or is killed. -/
inductive Step (M : Store S σ) : Processes S σ ι α → ι × Action → Processes S σ ι α → Prop
  | op {s : Processes S σ ι α} {i : ι} {log : List (Event S)} {o : S.Op} {k : S.Ans o → Prog S α} :
      s.procs i = ⟨log, .op o k, false⟩ →
        Step M s (i, .op) (s.set i (M.next s.state o)
          ⟨log ++ [⟨o, M.answer s.state o⟩], k (M.answer s.state o), false⟩)
  | kill {s : Processes S σ ι α} {i : ι} : (s.procs i).killed = false →
      Step M s (i, .kill) (s.set i s.state { s.procs i with killed := true })

/-- A process that is alone gets to its end. -/
theorem exists_end (M : Store S σ) {s : Processes S σ ι α} {i : ι} {log : List (Event S)}
    {rest : Prog S α} (h : s.procs i = ⟨log, rest, false⟩) :
    ∃ ls s' log', Steps (Step M) s ls s' ∧ s'.state = (M.exec s.state rest).2 ∧
      s'.procs i = ⟨log', .ret (M.exec s.state rest).1, false⟩ ∧
      ∀ j, j ≠ i → s'.procs j = s.procs j := by
  induction rest generalizing s log with
  | ret a => exact ⟨[], s, log, .nil s, rfl, h, fun _ _ => rfl⟩
  | op o k ih =>
    obtain ⟨ls, s', log', hsteps, hstate, hself, hother⟩ := ih (M.answer s.state o)
      (s.set_procs_self i (M.next s.state o) ⟨_, k (M.answer s.state o), false⟩)
    refine ⟨(i, .op) :: ls, s', log', .cons (.op h) hsteps, hstate, hself, fun j hj => ?_⟩
    rw [hother j hj, set_procs_of_ne _ _ _ hj]

end Processes

end Effects
