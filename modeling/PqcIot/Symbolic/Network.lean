import Mathlib.Data.List.Infix
import Mathlib.Logic.Relation
import Mathlib.Data.Set.Insert
import PqcIot.Effects.Program
import PqcIot.Symbolic.Attacker

/-!
# Honest agents on a network that an attacker controls

Agents are programs over signatures of their own. They take steps in any order, each one answered by
anything that its surroundings and the attacker may answer; what an agent shows to the network, the
attacker knows from then on, and long-term secrets may leak at any time.

A state consists of the history of every agent and of what has leaked. Along every run:

* the history of an agent is a run of its program (`Reachable.run`);
* every event in it was allowed, also by what the attacker knows now (`Reachable.answers`);
* histories, leaks and knowledge only grow (`Steps.log_prefix`, `Steps.leaked_subset`,
  `Steps.known`).
-/

namespace Symbolic

open Effects Relation

variable {ι A L : Type} [KemLengths L]

/-- Agents, and what the network and their surroundings may do to them. -/
structure Network (ι A L : Type) [KemLengths L] where
  /-- The operations an agent performs. -/
  sig : ι → Signature
  Result : ι → Type
  program : ∀ i, Prog (sig i) (Result i)
  /-- What an event of an agent shows to the attacker. -/
  shown : ∀ i, Event (sig i) → List (Byte A L)
  /-- The events that are possible for an agent, given what the attacker knows and the history. -/
  Answers : ∀ i, (Byte A L → Prop) → List (Event (sig i)) → Event (sig i) → Prop
  answers_mono : ∀ {i K K' log e}, (∀ x, K x → K' x) → Answers i K log e → Answers i K' log e
  /-- What the attacker knows from the start. -/
  initial : Byte A L → Prop
  /-- The random values that may leak. -/
  leakable : A → Prop

namespace Network

variable (N : Network ι A L)

/-- The histories of all agents and the random values that have leaked. -/
structure State where
  log : ∀ i, List (Event (N.sig i))
  leaked : Set A

/-- Nothing has happened. -/
def start : N.State := ⟨fun _ => [], ∅⟩

variable {N}

/-- What has been shown or has leaked. -/
inductive Known (s : N.State) : Byte A L → Prop
  | initial {x : Byte A L} : N.initial x → Known s x
  | shown {i : ι} {e : Event (N.sig i)} {x : Byte A L} : e ∈ s.log i → x ∈ N.shown i e → Known s x
  | leaked {a : A} (n : ℕ) : a ∈ s.leaked → Known s (.atom a n)

/-- What the attacker can compute. -/
abbrev Knows (s : N.State) : Byte A L → Prop := Derivable (Known s)

variable [DecidableEq ι]

/-- More has happened to one agent. -/
def State.extend (s : N.State) (i : ι) (l : List (Event (N.sig i))) : N.State :=
  { s with log := Function.update s.log i (s.log i ++ l) }

/-- The party's history is longer. -/
@[simp]
theorem State.extend_log_self (s : N.State) (i : ι) (l : List (Event (N.sig i))) :
    (s.extend i l).log i = s.log i ++ l := Function.update_self ..

/-- Those of the other parties are as they were. -/
theorem State.extend_log_of_ne (s : N.State) {i k : ι} (l : List (Event (N.sig i)))
    (hk : k ≠ i) : (s.extend i l).log k = s.log k := Function.update_of_ne hk ..

@[simp]
theorem State.extend_leaked (s : N.State) (i : ι) (l : List (Event (N.sig i))) :
    (s.extend i l).leaked = s.leaked := rfl

/-- Nothing has happened. -/
@[simp]
theorem State.extend_nil (s : N.State) (i : ι) : s.extend i [] = s := by
  rw [State.extend, List.append_nil, Function.update_eq_self]

/-- One event after the other. -/
@[simp]
theorem State.extend_extend (s : N.State) (i : ι) (l l' : List (Event (N.sig i))) :
    (s.extend i l).extend i l' = s.extend i (l ++ l') := by
  rw [State.extend, State.extend_log_self, State.extend, State.extend, Function.update_idem,
    List.append_assoc]

/-- The order in which two agents act does not matter for their histories. -/
theorem State.extend_comm (s : N.State) {i k : ι} (l : List (Event (N.sig i)))
    (l' : List (Event (N.sig k))) (hk : k ≠ i) :
    (s.extend i l).extend k l' = (s.extend k l').extend i l := by
  have hi : (s.extend k l').log i = s.log i := s.extend_log_of_ne l' (Ne.symm hk)
  have hk' : (s.extend i l).log k = s.log k := s.extend_log_of_ne l hk
  show State.mk (Function.update (s.extend i l).log k ((s.extend i l).log k ++ l')) s.leaked =
    State.mk (Function.update (s.extend k l').log i ((s.extend k l').log i ++ l)) s.leaked
  rw [hk', hi]
  exact congrArg (State.mk · s.leaked) (Function.update_comm hk.symm _ _ _)

/-- One step: an agent performs its next operation and gets an answer, or a secret leaks. -/
inductive Step : N.State → N.State → Prop
  | act {s : N.State} {i : ι} {o : (N.sig i).Op} {k : (N.sig i).Ans o → Prog (N.sig i) (N.Result i)}
      {a : (N.sig i).Ans o} : Prog.Run (N.program i) (s.log i) (.op o k) →
      N.Answers i (Knows s) (s.log i) ⟨o, a⟩ →
      Step s (s.extend i [⟨o, a⟩])
  | leak {s : N.State} {a : A} : N.leakable a → Step s { s with leaked := insert a s.leaked }

/-- Any number of steps. -/
abbrev Steps : N.State → N.State → Prop := ReflTransGen Step

/-- The states of all runs. -/
def Reachable (s : N.State) : Prop := Steps N.start s

/-- What is reached from a reachable state is reachable. -/
theorem Reachable.steps {s s' : N.State} (hs : Reachable s) (h : Steps s s') : Reachable s' :=
  ReflTransGen.trans hs h

/-! ## What only grows -/

/-- A step only appends to histories. -/
theorem Step.log_prefix {s s' : N.State} (h : Step s s') (i : ι) : s.log i <+: s'.log i := by
  cases h with
  | @act i' o k a _ _ =>
    by_cases hi : i = i'
    · subst hi
      rw [State.extend_log_self]
      exact List.prefix_append _ _
    · rw [State.extend_log_of_ne _ _ hi]
  | leak _ => exact List.prefix_rfl

/-- So do several. -/
theorem Steps.log_prefix {s s' : N.State} (h : Steps s s') (i : ι) : s.log i <+: s'.log i := by
  induction h with
  | refl => exact List.prefix_rfl
  | tail _ hstep ih => exact ih.trans (hstep.log_prefix i)

/-- What has leaked stays so. -/
theorem Step.leaked_subset {s s' : N.State} (h : Step s s') : s.leaked ⊆ s'.leaked := by
  cases h with
  | act _ _ => exact subset_rfl
  | leak _ => exact Set.subset_insert _ _

/-- It does over several steps. -/
theorem Steps.leaked_subset {s s' : N.State} (h : Steps s s') : s.leaked ⊆ s'.leaked := by
  induction h with
  | refl => exact subset_rfl
  | tail _ hstep ih => exact ih.trans hstep.leaked_subset

/-- What has been shown stays known. -/
theorem Steps.known {s s' : N.State} (h : Steps s s') {x : Byte A L} (hx : Known s x) :
    Known s' x := by
  cases hx with
  | initial hx => exact .initial hx
  | shown he hx => exact .shown ((h.log_prefix _).subset he) hx
  | leaked n ha => exact .leaked n (h.leaked_subset ha)

/-- The attacker forgets nothing. -/
theorem Steps.knows {s s' : N.State} (h : Steps s s') {x : Byte A L} (hx : Knows s x) :
    Knows s' x :=
  hx.mono fun _ => h.known

/-! ## Honest continuations -/

/-- The events are possible one after the other. -/
def Possible (i : ι) (K : Byte A L → Prop) :
    List (Event (N.sig i)) → List (Event (N.sig i)) → Prop
  | _, [] => True
  | log, e :: l => N.Answers i K log e ∧ Possible i K (log ++ [e]) l

omit [DecidableEq ι] in

/-- The more the attacker knows, the more is possible. -/
theorem Possible.mono {i : ι} {K K' : Byte A L → Prop} (hK : ∀ x, K x → K' x)
    {log l : List (Event (N.sig i))} (h : Possible i K log l) : Possible i K' log l := by
  induction l generalizing log with
  | nil => trivial
  | cons e l ih => exact ⟨N.answers_mono hK h.1, ih h.2⟩

omit [DecidableEq ι] in

/-- Event after event is possible with what was known before each. -/
theorem possible_append {i : ι} {K : Byte A L → Prop} {log l l' : List (Event (N.sig i))} :
    Possible i K log (l ++ l') ↔ Possible i K log l ∧ Possible i K (log ++ l) l' := by
  induction l generalizing log with
  | nil => simp [Possible]
  | cons e l ih => simp [Possible, ih, and_assoc]

/-- If a run of an agent's program is possible, the network can perform it. -/
theorem steps_extend {s : N.State} {i : ι} {l : List (Event (N.sig i))}
    {q : Prog (N.sig i) (N.Result i)} (hrun : Prog.Run (N.program i) (s.log i ++ l) q)
    (hpossible : Possible i (Knows s) (s.log i) l) : Steps s (s.extend i l) := by
  induction l generalizing s with
  | nil =>
    rw [State.extend_nil]
  | cons e l ih =>
    obtain ⟨o, a⟩ := e
    obtain ⟨q', hq', hrest⟩ := hrun.split
    have hstep : Step s (s.extend i [⟨o, a⟩]) := by
      cases hrest with
      | cons _ => exact .act hq' hpossible.1
    have hrest : Steps (s.extend i [⟨o, a⟩]) ((s.extend i [⟨o, a⟩]).extend i l) := by
      refine ih ?_ ?_
      · rw [State.extend_log_self, List.append_assoc]
        exact hrun
      · rw [State.extend_log_self]
        exact hpossible.2.mono fun x => Steps.knows (.single hstep)
    rw [State.extend_extend] at hrest
    exact .head hstep hrest

/-! ## Invariants -/

/-- The history of every agent is a run of its program. -/
theorem Reachable.run {s : N.State} (hs : Reachable s) (i : ι) :
    ∃ q, Prog.Run (N.program i) (s.log i) q := by
  induction hs with
  | refl => exact ⟨_, .nil _⟩
  | tail _ hstep ih =>
    cases hstep with
    | @act i' o k a hrun _ =>
      by_cases hi : i = i'
      · subst hi
        refine ⟨k a, ?_⟩
        rw [State.extend_log_self]
        exact hrun.trans (.cons (.nil _))
      · rw [State.extend_log_of_ne _ _ hi]
        exact ih
    | leak _ => exact ih

/-- Every event that an agent has seen was possible at the point it happened at. -/
theorem Reachable.answers {s : N.State} (hs : Reachable s) {i : ι} {l₁ l₂ : List (Event (N.sig i))}
    {e : Event (N.sig i)} (hlog : s.log i = l₁ ++ e :: l₂) : N.Answers i (Knows s) l₁ e := by
  induction hs generalizing l₁ l₂ e with
  | refl =>
    have hnil : ([] : List (Event (N.sig i))) = l₁ ++ e :: l₂ := hlog
    simp at hnil
  | @tail s s' _ hstep ih =>
    refine N.answers_mono (fun x => Steps.knows (.single hstep)) ?_
    cases hstep with
    | @act i' o k a _ hanswers =>
      by_cases hi : i = i'
      · subst hi
        rw [State.extend_log_self] at hlog
        -- The event is the new one, or was there before.
        rcases List.eq_nil_or_concat' l₂ with rfl | ⟨l₂', e', rfl⟩
        · obtain ⟨rfl, heq⟩ := List.append_inj' hlog rfl
          obtain rfl := List.singleton_injective heq
          exact hanswers
        · rw [← List.cons_append, ← List.append_assoc] at hlog
          exact ih (List.append_inj' hlog rfl).1
      · rw [State.extend_log_of_ne _ _ hi] at hlog
        exact ih hlog
    | leak _ => exact ih hlog

/-- The same for an event at a known place of the history. -/
theorem Reachable.answers_of_prefix {s : N.State} (hs : Reachable s) {i : ι}
    {l₁ l₂ : List (Event (N.sig i))} {e : Event (N.sig i)} (hlog : l₁ ++ e :: l₂ <+: s.log i) :
    N.Answers i (Knows s) l₁ e := by
  obtain ⟨rest, hrest⟩ := hlog
  have hlog : s.log i = l₁ ++ e :: (l₂ ++ rest) := by
    rw [← hrest, List.append_assoc, List.cons_append]
  exact hs.answers hlog

/-- Every operation that an agent has performed satisfies a specification of its program. -/
theorem Reachable.op_of_spec {s : N.State} (hs : Reachable s) {i : ι}
    {φ : List (Event (N.sig i)) → (N.sig i).Op → Prop}
    {ψ : List (Event (N.sig i)) → N.Result i → Prop} (hspec : Prog.Spec φ ψ [] (N.program i))
    {l₁ l₂ : List (Event (N.sig i))} {e : Event (N.sig i)} (hlog : s.log i = l₁ ++ e :: l₂) :
    φ l₁ e.1 := by
  obtain ⟨q, hrun⟩ := hs.run i
  rw [hlog] at hrun
  exact hspec.op_of_run hrun

/-- Only what may leak has leaked. -/
theorem Reachable.leakable {s : N.State} (hs : Reachable s) {a : A} (ha : a ∈ s.leaked) :
    N.leakable a := by
  induction hs with
  | refl => exact absurd ha (Set.notMem_empty a)
  | tail _ hstep ih =>
    cases hstep with
    | act _ _ => exact ih ha
    | leak hleak =>
      rcases Set.mem_insert_iff.mp ha with rfl | ha
      · exact hleak
      · exact ih ha

end Network

end Symbolic
