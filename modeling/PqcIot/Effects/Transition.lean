import Mathlib.Data.List.Basic

/-!
# Runs of labelled transitions

`Steps step s ls t`: transitions with the labels `ls`, in this order, lead from `s` to `t`. What
every transition keeps holds along the run (`Steps.invariant`).
-/

namespace Effects

variable {σ L : Type}

/-- Transitions one after another. -/
inductive Steps (step : σ → L → σ → Prop) : σ → List L → σ → Prop
  | nil (s : σ) : Steps step s [] s
  | cons {s t u : σ} {l : L} {ls : List L} : step s l t → Steps step t ls u →
      Steps step s (l :: ls) u

namespace Steps

variable {step : σ → L → σ → Prop} {s t u : σ} {ls ls' : List L}

/-- A single transition. -/
theorem single {l : L} (h : step s l t) : Steps step s [l] t := .cons h (.nil t)

/-- Runs compose. -/
theorem append (h : Steps step s ls t) (h' : Steps step t ls' u) : Steps step s (ls ++ ls') u := by
  induction h with
  | nil s => exact h'
  | cons hstep _ ih => exact .cons hstep (ih h')

/-- More transitions allow more runs. -/
theorem mono {step' : σ → L → σ → Prop} (hstep : ∀ s l t, step s l t → step' s l t)
    (h : Steps step s ls t) : Steps step' s ls t := by
  induction h with
  | nil s => exact .nil s
  | cons h _ ih => exact .cons (hstep _ _ _ h) ih

/-- What every transition keeps, a run keeps. -/
theorem invariant {I : σ → Prop} (hI : ∀ s l t, I s → step s l t → I t) (h : Steps step s ls t)
    (hs : I s) : I t := by
  induction h with
  | nil s => exact hs
  | cons hstep _ ih => exact ih (hI _ _ _ hs hstep)

/-- What a transition makes of the trace so far and the state, along a run. -/
theorem invariant_trace {I : List L → σ → Prop}
    (hI : ∀ ls s l t, I ls s → step s l t → I (ls ++ [l]) t) (h : Steps step s ls t)
    (hs : I [] s) : I ls t := by
  suffices hbefore : ∀ before, I before s → I (before ++ ls) t from hbefore [] hs
  clear hs
  induction h with
  | nil s => exact fun before hs => (List.append_nil before).symm ▸ hs
  | cons hstep _ ih =>
    intro before hs
    rw [List.append_cons]
    exact ih _ (hI _ _ _ _ hs hstep)

/-- A run can be cut anywhere. -/
theorem split (h : Steps step s (ls ++ ls') u) : ∃ t, Steps step s ls t ∧ Steps step t ls' u := by
  induction ls generalizing s with
  | nil => exact ⟨s, .nil s, h⟩
  | cons l ls ih =>
    cases h with
    | cons hstep h =>
      obtain ⟨t, ht, hu⟩ := ih h
      exact ⟨t, .cons hstep ht, hu⟩

/-- Where an invariant holds, transitions that it turns into others make a run of them. -/
theorem mono_invariant {step' : σ → L → σ → Prop} {I : σ → Prop}
    (hI : ∀ s l t, I s → step s l t → I t) (hstep : ∀ s l t, I s → step s l t → step' s l t)
    (h : Steps step s ls t) (hs : I s) : Steps step' s ls t := by
  induction h with
  | nil s => exact .nil s
  | cons h _ ih => exact .cons (hstep _ _ _ hs h) (ih (hI _ _ _ hs h))

end Steps

end Effects
