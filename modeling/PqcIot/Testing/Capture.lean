import PqcIot.Testing.Drill

/-!
# Capturing the serial output

`reset_and_capture` of `tests/hostile_server_drill.py` stops reading as soon as it has seen "session
completed" or "session failed". `evaluate` looks for more: the end of the verdict line says which
mode failed. When the serial port delivers that line in two pieces, its end can be missing
(`verdict_captured_iff`).
-/

namespace PqcIot

open Protocol Text

namespace Drill

/-- The loop of `reset_and_capture` stops at this buffer. -/
def Stops (buf : List UInt8) : Prop :=
  Printed "session completed" buf ∨ Printed "session failed" buf

instance : DecidablePred Stops := fun buf => by
  unfold Stops
  infer_instance

/-- The loop of `reset_and_capture`, over what `ser.read` returns before the deadline. -/
def captureFrom (buf : List UInt8) : List (List UInt8) → List UInt8
  | [] => buf
  | chunk :: chunks =>
    let buf := buf ++ chunk
    -- What has not arrived by now is not read any more, even the rest of the line.
    if Stops buf then buf else captureFrom buf chunks

/-- `reset_and_capture`. -/
def capture (chunks : List (List UInt8)) : List Char := decodeReplace (captureFrom [] chunks)

/-- What has been read after some of the chunks. -/
def arrived (chunks : List (List UInt8)) (k : ℕ) : List UInt8 := (chunks.take k).flatten

theorem arrived_prefix (chunks : List (List UInt8)) {j k : ℕ} (hjk : j ≤ k) :
    arrived chunks j <+: arrived chunks k := by
  obtain ⟨rest, hrest⟩ := List.take_prefix_take_left (l := chunks) hjk
  exact ⟨rest.flatten, by rw [arrived, arrived, ← hrest, List.flatten_append]⟩

theorem arrived_prefix_flatten (chunks : List (List UInt8)) (k : ℕ) :
    arrived chunks k <+: chunks.flatten := by
  obtain ⟨rest, hrest⟩ := List.take_prefix k chunks
  exact ⟨rest.flatten, by rw [arrived, ← List.flatten_append, hrest]⟩

/-- What has been printed stays printed. -/
theorem Printed.mono {text : String} {x y : List UInt8} (hx : Printed text x) (hxy : x <+: y) :
    Printed text y :=
  hx.trans hxy.isInfix

/-- The loop ends with the first buffer that it stops at, or with everything. -/
theorem captureFrom_eq (buf : List UInt8) (chunks : List (List UInt8)) (hbuf : ¬ Stops buf) :
    (∃ k, captureFrom buf chunks = buf ++ arrived chunks k ∧ Stops (buf ++ arrived chunks k) ∧
      ∀ j, Stops (buf ++ arrived chunks j) → k ≤ j) ∨
    captureFrom buf chunks = buf ++ chunks.flatten ∧ ∀ j, ¬ Stops (buf ++ arrived chunks j) := by
  induction chunks generalizing buf with
  | nil =>
    refine .inr ⟨by simp [captureFrom], fun j => ?_⟩
    simpa [arrived] using hbuf
  | cons chunk chunks ih =>
    have hzero : ¬ Stops (buf ++ arrived (chunk :: chunks) 0) := by simpa [arrived] using hbuf
    have hsucc (j : ℕ) : buf ++ arrived (chunk :: chunks) (j + 1) =
        (buf ++ chunk) ++ arrived chunks j := by
      rw [arrived, List.take_succ_cons, List.flatten_cons, List.append_assoc, arrived]
    -- The capture stops with this chunk, or goes on behind it.
    by_cases hstop : Stops (buf ++ chunk)
    · refine .inl ⟨1, ?_, ?_, fun j hj => ?_⟩
      · rw [captureFrom, if_pos hstop, hsucc 0]
        simp [arrived]
      · rw [hsucc 0]
        simpa [arrived] using hstop
      · cases j with
        | zero => exact absurd hj hzero
        | succ j => exact Nat.succ_le_succ (Nat.zero_le j)
    · rw [captureFrom, if_neg hstop]
      rcases ih (buf ++ chunk) hstop with ⟨k, heq, hk, hfirst⟩ | ⟨heq, hnone⟩
      · refine .inl ⟨k + 1, by rw [heq, hsucc], by rwa [hsucc], fun j hj => ?_⟩
        cases j with
        | zero => exact absurd hj hzero
        | succ j => exact Nat.succ_le_succ (hfirst j (hsucc j ▸ hj))
      · refine .inr ⟨by rw [heq, List.flatten_cons, List.append_assoc], fun j hj => ?_⟩
        cases j with
        | zero => exact hzero hj
        | succ j => exact hnone j (hsucc j ▸ hj)

/-- What `evaluate` decides on. -/
def Pass (bytes : List UInt8) (fsOnly : Bool) : Prop :=
  Printed "session failed" bytes ∧
    if fsOnly then Printed "mode B FAILED" bytes else ¬ Printed "session completed" bytes

theorem evaluate_decodeReplace_iff (bytes : List UInt8) (fsOnly : Bool) :
    (evaluate (decodeReplace bytes) fsOnly).1 = true ↔ Pass bytes fsOnly := by
  rw [evaluate_eq_true_iff, within_decodeReplace (by decide), within_decodeReplace (by decide),
    within_decodeReplace (by decide), Pass]

/-- A part of the stream says what the stream says. -/
def SaysAll (part stream : List UInt8) : Prop :=
  (Printed "session completed" stream → Printed "session completed" part) ∧
    (Printed "session failed" stream ∧ Printed "mode B FAILED" stream →
      Printed "session failed" part ∧ Printed "mode B FAILED" part)

/-- When what was seen (`c`, `f`, `b`) is also in the stream, and one of the first two was seen, the
two verdicts agree exactly if nothing is missing that they depend on. -/
private theorem verdicts_agree {c f b c' f' b' : Prop} (hc : c → c') (hf : f → f') (hb : b → b')
    (hstop : c ∨ f) : ((f ∧ ¬ c ↔ f' ∧ ¬ c') ∧ (f ∧ b ↔ f' ∧ b')) ↔
      (c' → c) ∧ (f' ∧ b' → f ∧ b) := by
  constructor
  · rintro ⟨hA, hB⟩
    refine ⟨fun hc' => ?_, hB.mpr⟩
    by_contra hno
    exact (hA.mp ⟨hstop.resolve_left hno, hno⟩).2 hc'
  · rintro ⟨hc', hfb⟩
    refine ⟨⟨fun h => ⟨hf h.1, fun h' => h.2 (hc' h')⟩, fun h => ?_⟩,
      fun h => ⟨hf h.1, hb h.2⟩, hfb⟩
    have hno : ¬ c := fun h' => h.2 (hc h')
    exact ⟨hstop.resolve_left hno, hno⟩

/-- Stopping inside the stream keeps the verdicts exactly if everything has been said there. -/
theorem pass_iff_of_stops {part stream : List UInt8} (hpart : part <+: stream)
    (hstop : Stops part) :
    (∀ fsOnly, Pass part fsOnly ↔ Pass stream fsOnly) ↔ SaysAll part stream := by
  rw [Bool.forall_bool]
  exact verdicts_agree (·.mono hpart) (·.mono hpart) (·.mono hpart) hstop

/-- The verdict on what was captured is that on the whole stream, for both values of `fs_only`,
exactly if at every chunk boundary after which the loop may stop everything that `evaluate` looks
for has arrived, as far as the stream has it. -/
theorem verdict_captured_iff (chunks : List (List UInt8)) :
    (∀ fsOnly, (evaluate (capture chunks) fsOnly).1 =
      (evaluate (decodeReplace chunks.flatten) fsOnly).1) ↔
      ∀ k, Stops (arrived chunks k) → SaysAll (arrived chunks k) chunks.flatten := by
  have hverdict : (∀ fsOnly, (evaluate (capture chunks) fsOnly).1 =
      (evaluate (decodeReplace chunks.flatten) fsOnly).1) ↔
      ∀ fsOnly, Pass (captureFrom [] chunks) fsOnly ↔ Pass chunks.flatten fsOnly := by
    refine forall_congr' fun fsOnly => ?_
    rw [Bool.eq_iff_iff, capture, evaluate_decodeReplace_iff, evaluate_decodeReplace_iff]
  rw [hverdict]
  rcases captureFrom_eq [] chunks (by decide) with ⟨k, heq, hstop, hfirst⟩ | ⟨heq, hnone⟩
  · rw [heq, List.nil_append, pass_iff_of_stops (arrived_prefix_flatten chunks k) hstop]
    -- Later boundaries have seen at least as much.
    refine ⟨fun hall j hj => ?_, fun hall => hall k hstop⟩
    have hmore := arrived_prefix chunks (hfirst j hj)
    exact ⟨fun h => (hall.1 h).mono hmore,
      fun h => (hall.2 h).imp (·.mono hmore) (·.mono hmore)⟩
  · rw [heq, List.nil_append]
    exact iff_of_true (fun _ => Iff.rfl) fun j hj => absurd hj (hnone j)

/-- The verdict line of a round in which mode B failed, delivered in two pieces. -/
theorem verdict_captured_split :
    let chunks := [ascii "\nsession failed", ascii " (mode A ok, mode B FAILED)\n"]
    chunks.flatten = 0x0A :: (ascii (verdictLine true false) ++ [0x0A]) ∧
      (evaluate (capture chunks) true).1 = false ∧
      (evaluate (decodeReplace chunks.flatten) true).1 = true := by
  decide

end Drill

end PqcIot

