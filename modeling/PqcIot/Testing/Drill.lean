import PqcIot.Crypto.Constant
import PqcIot.Testing.Rogue
import PqcIot.Text.Utf8

/-!
# The hostile-server drill

`tests/hostile_server_drill.py`: `evaluate` reads the verdict of a round off the text that the board
has printed. A round attacks one session of the firmware, but the last line that `app_main` prints
is about both. Where mode A is attacked nobody listens when mode B connects, so that line says
"session failed" whatever mode A did (`evaluate_sound_iff`).
-/

namespace PqcIot

open Effects Protocol Rogue Text

namespace Drill

variable {β : Type}

/-! ## The verdict -/

/-- The connections of a mode in `MODES`: the firmware runs mode A first. -/
def connections : Mode → ℕ
  | .badEk | .swapEk => 2
  | _ => 1

/-- `text in output`. -/
def Within (text : String) (output : List Char) : Prop := text.toList <:+: output

instance (text : String) (output : List Char) : Decidable (Within text output) :=
  inferInstanceAs (Decidable (text.toList <:+: output))

/-- A line of the log that says why. -/
def Explains (line : List Char) : Prop :=
  Within "pqc:" line ∧
    ∃ w ∈ ["mismatch", "unexpected", "no ServerHello", "failed", "not the pinned"], Within w line

instance : DecidablePred Explains := fun line => by
  unfold Explains
  infer_instance

/-- The loop at the end of `evaluate`: the first such line, after its tag. -/
def explanation (output : List Char) : List Char :=
  match (splitlines output).find? fun line => Explains line with
  | some line => strip (afterFirst "pqc:".toList line)
  | none => "rejected".toList

/-- `evaluate`. A pass means the firmware refused. -/
def evaluate (output : List Char) (fsOnly : Bool) : Bool × List Char :=
  -- An attack on mode B is judged by the end of the verdict line.
  if fsOnly ∧ ¬ Within "mode B FAILED" output then
    (false, "firmware ACCEPTED the mode B handshake".toList)
  else if ¬ fsOnly ∧ Within "session completed" output then
    (false, "firmware COMPLETED the session".toList)
  else if ¬ Within "session failed" output then
    (false, "no verdict on the serial line (hang or crash?)".toList)
  else
    (true, explanation output)

/-- What passes. -/
theorem evaluate_eq_true_iff (output : List Char) (fsOnly : Bool) :
    (evaluate output fsOnly).1 = true ↔ Within "session failed" output ∧
      if fsOnly then Within "mode B FAILED" output else ¬ Within "session completed" output := by
  rw [evaluate]
  cases fsOnly with
  | true =>
    by_cases hB : Within "mode B FAILED" output <;> by_cases hF : Within "session failed" output <;>
      simp [hB, hF]
  | false =>
    by_cases hC : Within "session completed" output <;>
      by_cases hF : Within "session failed" output <;> simp [hC, hF]

/-! ## What the board prints -/

/-- The last lines of `app_main`. -/
def verdictLine (modeA modeB : Bool) : String :=
  if modeA && modeB then "session completed"
  else
    "session failed (mode A " ++ (if modeA then "ok" else "FAILED") ++ ", mode B " ++
      (if modeB then "ok" else "FAILED") ++ ")"

/-- The text occurs in what was printed. -/
def Printed (text : String) (bytes : List UInt8) : Prop := ascii text <:+: bytes

instance (text : String) (bytes : List UInt8) : Decidable (Printed text bytes) :=
  inferInstanceAs (Decidable (ascii text <:+: bytes))

/-- Only ASCII characters. -/
def IsAscii (text : String) : Prop := ∀ c ∈ text.toList, c.toNat < 0x80

instance (text : String) : Decidable (IsAscii text) :=
  decidable_of_iff ((text.toList.all fun c => decide (c.toNat < 0x80)) = true) (by simp [IsAscii])

theorem ascii_ascii {text : String} (htext : IsAscii text) : Ascii (ascii text) := by
  intro b hb
  obtain ⟨c, hc, rfl⟩ := List.mem_map.mp hb
  have hlt := htext c hc
  exact UInt8.lt_iff_toNat_lt.mpr (by simpa using Nat.lt_of_le_of_lt (Nat.mod_le _ _) hlt)

theorem map_asciiChar_ascii {text : String} (htext : IsAscii text) :
    (ascii text).map asciiChar = text.toList := by
  rw [ascii, List.map_map]
  refine (List.map_congr_left fun c hc => ?_).trans (List.map_id _)
  have hlt := htext c hc
  simp only [Function.comp_apply, asciiChar, id_eq, UInt8.toNat_ofNat']
  rw [Nat.mod_eq_of_lt (by omega), Char.ofNat_toNat]

/-- Reading the serial line does not lose ASCII text, nor add any. -/
theorem within_decodeReplace {text : String} (htext : IsAscii text) (bytes : List UInt8) :
    Within text (decodeReplace bytes) ↔ Printed text bytes := by
  rw [Within, Printed, ← map_asciiChar_ascii htext, infix_decodeReplace (ascii_ascii htext)]

/-- A text on one line is in what was printed before the last line of `app_main`, on that line, or
after it. -/
theorem printed_lines_iff {text : String} (htext : (0x0A : UInt8) ∉ ascii text)
    (before line after : List UInt8) :
    Printed text (before ++ 0x0A :: (line ++ 0x0A :: after)) ↔
      Printed text before ∨ ascii text <:+: line ∨ Printed text after := by
  rw [Printed, infix_append_cons_iff htext, infix_append_cons_iff htext]
  rfl

/-! ## A round -/

/-- One call of `pqc_session_run`: the connections it has asked for, and what it has returned. -/
structure Session (β : Type) where
  attempts : List (Attempt β)
  returned : Bool

/-- A round of the drill: the firmware runs mode A and then mode B while the misbehaving server
serves the connections of the mode, and prints the last lines of `app_main` among whatever else it
prints. -/
structure Round (P : Prims β) (psk : List β) (mode : Mode) where
  modeA : Session β
  modeB : Session β
  before : List UInt8
  after : List UInt8
  served : Serves P mode psk (connections mode) 0 (modeA.attempts ++ modeB.attempts)

namespace Round

variable {P : Prims β} {psk : List β} {mode : Mode} (round : Round P psk mode)

/-- What the board prints. -/
def printed : List UInt8 :=
  round.before ++
    0x0A :: (ascii (verdictLine round.modeA.returned round.modeB.returned) ++ 0x0A :: round.after)

/-- The text was printed outside the verdict line. -/
def Logged (text : String) : Prop := Printed text round.before ∨ Printed text round.after

/-- The result of the round. -/
def passes : Bool := (evaluate (decodeReplace round.printed) (connections mode == 2)).1

/-- The session that the mode attacks. -/
def attacked : Session β := if connections mode = 2 then round.modeB else round.modeA

/-- The attacked session received the attack, and returned false. -/
def Refused : Prop :=
  (∃ attempt ∈ round.attacked.attempts, attempt.Attacked mode) ∧ round.attacked.returned = false

/-- A text of the drill is in the output exactly if it was logged or is on the verdict line. -/
theorem within_output_iff {text : String} (htext : IsAscii text)
    (hline : (0x0A : UInt8) ∉ ascii text) :
    Within text (decodeReplace round.printed) ↔ round.Logged text ∨
      ascii text <:+: ascii (verdictLine round.modeA.returned round.modeB.returned) := by
  rw [within_decodeReplace htext, printed, printed_lines_iff hline, Logged]
  tauto

/-- What the verdict line says. -/
theorem verdictLine_says (a b : Bool) :
    (ascii "session completed" <:+: ascii (verdictLine a b) ↔ a = true ∧ b = true) ∧
      (ascii "session failed" <:+: ascii (verdictLine a b) ↔ ¬ (a = true ∧ b = true)) ∧
      (ascii "mode B FAILED" <:+: ascii (verdictLine a b) ↔ b = false) := by
  revert a b
  decide

/-- A round passes by its verdict line and by what else was logged. -/
theorem passes_eq_true_iff :
    round.passes = true ↔
      (round.Logged "session failed" ∨
        ¬ (round.modeA.returned = true ∧ round.modeB.returned = true)) ∧
      if connections mode = 2 then round.Logged "mode B FAILED" ∨ round.modeB.returned = false
      else ¬ (round.Logged "session completed" ∨
        round.modeA.returned = true ∧ round.modeB.returned = true) := by
  obtain ⟨hcompleted, hfailed, hmodeB⟩ :=
    verdictLine_says round.modeA.returned round.modeB.returned
  rw [passes, evaluate_eq_true_iff, round.within_output_iff (by decide) (by decide), hfailed,
    round.within_output_iff (by decide) (by decide), hmodeB,
    round.within_output_iff (by decide) (by decide), hcompleted]
  simp only [beq_iff_eq]

/-- A round does not pass: in a one-connection mode if both sessions returned true or "session
completed" was logged, in a mode B attack if mode B returned true and the log did not make up the
verdict. -/
theorem not_passes_iff :
    ¬ round.passes = true ↔
      if connections mode = 2 then
        round.modeB.returned = true ∧ ¬ (round.Logged "mode B FAILED" ∧
          (round.modeA.returned = true → round.Logged "session failed"))
      else
        round.modeA.returned = true ∧ round.modeB.returned = true ∨
          round.Logged "session completed" := by
  rw [round.passes_eq_true_iff]
  by_cases hmode : connections mode = 2
  · rw [if_pos hmode, if_pos hmode]
    cases hB : round.modeB.returned with
    | false => simp
    | true => cases hA : round.modeA.returned <;> simp [imp_iff_not_or, or_comm, and_comm]
  · rw [if_neg hmode, if_neg hmode]
    by_cases hC : round.Logged "session completed" <;> cases hB : round.modeB.returned <;>
      cases hA : round.modeA.returned <;> simp [hC]

/-- A pass means that the attacked session refused the attack exactly if it did, or the round does
not pass. -/
theorem passes_sound_iff :
    (round.passes = true → round.Refused) ↔ round.Refused ∨
      if connections mode = 2 then
        round.modeB.returned = true ∧ ¬ (round.Logged "mode B FAILED" ∧
          (round.modeA.returned = true → round.Logged "session failed"))
      else
        round.modeA.returned = true ∧ round.modeB.returned = true ∨
          round.Logged "session completed" := by
  rw [imp_iff_or_not, round.not_passes_iff]

end Round

/-! ## A firmware that accepts a wrong MAC -/

section Accepting

open Raising

variable (P : Prims β) (psk : List β)

/-- A ClientHello of the device, in mode A. -/
def someHello : List β :=
  ClientHello.build P .mlkem768 (zeroBytes P 8).1 (zeroBytes P 4).1 (zeroBytes P 32).1
    (zeroBytes P 1088).1 psk

theorem parse_someHello : ∃ hello, ClientHello.parse P (someHello P psk) = .ok hello ∧
    hello.suite = .mlkem768 ∧ hello.clientNonce = (zeroBytes P 32).1 :=
  ⟨_, ClientHello.parse_append P (zeroBytes P 8).2 (zeroBytes P 4).2 (zeroBytes P 32).2
    (zeroBytes P 1088).2 (P.length_hmac _ _), rfl, rfl⟩

theorem exists_run_buildValidServerHello (hpsk : psk.length = pskLen) :
    ∃ l sh, Prog.Run (buildValidServerHello P (someHello P psk) (some (zeroBytes P 32).1) psk []
      none).run l (.ret (.ok sh)) := by
  obtain ⟨hello, hparse, hsuite, hnonce⟩ := parse_someHello P psk
  -- The values of the handshake.
  let x : Handshake β := ⟨false, someHello P psk, (zeroBytes P 32).1, (zeroBytes P nonceLen).1,
    (zeroBytes P sessionIdLen).1, [], [], psk, (zeroBytes P 32).1, []⟩
  have hkeys : deriveKeys P (zeroBytes P 32).1 psk hello.clientNonce (zeroBytes P nonceLen).1
      (x.th2 P) = .ok ⟨x.srvConfirm P, x.cliConfirm P, x.c2s P, x.s2c P⟩ := by
    rw [hnonce]
    exact x.deriveKeys_eq P hpsk rfl
  have hconfirm : srvConfirmKey P hello psk (zeroBytes P nonceLen).1 (x.th2 P)
      (some (zeroBytes P 32).1) = pure (x.srvConfirm P) := by
    have hfs : ¬ hello.suite.params.fs = true := by
      rw [hsuite]
      decide
    rw [srvConfirmKey, if_neg hfs, hkeys]
    rfl
  suffices hmay : May (fun r => ∃ sh, r = .ok sh) (buildValidServerHello P (someHello P psk)
      (some (zeroBytes P 32).1) psk [] none) by
    obtain ⟨l, _, hrun, sh, rfl⟩ := hmay
    exact ⟨l, sh, hrun⟩
  refine May.call (S := rogueOps β) (o := RogueOp.tokenBytes nonceLen) (zeroBytes P nonceLen) ?_
  refine May.call (S := rogueOps β) (o := RogueOp.tokenBytes sessionIdLen)
    (zeroBytes P sessionIdLen) ?_
  dsimp only
  rw [hparse]
  refine May.bind (a := hello) (.nil _) ?_
  change May _ (srvConfirmKey P hello psk (zeroBytes P nonceLen).1 (x.th2 P)
    (some (zeroBytes P 32).1) >>= _)
  rw [hconfirm]
  exact May.pure ⟨_, rfl⟩

/-- The server flips the last bit of its MAC. -/
theorem exists_run_wrongMac (hpsk : psk.length = pskLen) :
    ∃ log, Prog.Run (handle P .wrongMac psk).run log (.ret (.ok Mode.wrongMac.report)) := by
  obtain ⟨hello, hparse, -, -⟩ := parse_someHello P psk
  obtain ⟨l, sh, hbuild⟩ := exists_run_buildValidServerHello P psk hpsk
  suffices hmay : May (fun r => r = .ok Mode.wrongMac.report) (handle P .wrongMac psk) by
    obtain ⟨l, _, hrun, rfl⟩ := hmay
    exact ⟨l, hrun⟩
  refine May.call (S := rogueOps β) (o := RogueOp.readFrame)
    (.ok (frameClientHello, someHello P psk)) ?_
  refine May.bind (a := (frameClientHello, someHello P psk)) (.nil _) ?_
  dsimp only
  rw [if_neg (not_not.mpr rfl), hparse]
  refine May.bind (a := hello) (.nil _) ?_
  have hdecap : Prog.Run (decapsulate .pinned hello.kemCt).run
      [⟨.decap .pinned hello.kemCt, .ok ⟨0, some (zeroBytes P 32).1⟩⟩]
      (.ret (.ok (some (zeroBytes P 32).1))) := .cons (.nil _)
  refine May.bind hdecap ?_
  refine May.bind hbuild ?_
  exact May.call (S := rogueOps β) (o := RogueOp.writeFrame _ _) (.ok ()) (May.pure rfl)

end Accepting

/-- The board completes the session in which the MAC was wrong, nobody listens for its next one, and
the round passes. -/
theorem passes_accepting : ∃ round : Round zeroPrims (List.replicate 32 0) .wrongMac,
    (∃ attempt ∈ round.modeA.attempts, attempt.Attacked .wrongMac) ∧ round.modeA.returned = true ∧
      round.passes = true ∧ ¬ round.Refused := by
  obtain ⟨log, hrun⟩ := exists_run_wrongMac zeroPrims (List.replicate 32 0) List.length_replicate
  let round : Round zeroPrims (List.replicate 32 0) .wrongMac := {
    modeA := ⟨[.served log (.ok Mode.wrongMac.report)], true⟩
    modeB := ⟨[.refused], false⟩
    before := []
    after := []
    served := ⟨Nat.zero_lt_one, hrun, Nat.le_refl 1, trivial⟩ }
  refine ⟨round, ⟨_, List.mem_cons_self, rfl⟩, rfl, ?_, fun hrefused => nomatch hrefused.2⟩
  have hlogged : ¬ (Printed "session completed" [] ∨ Printed "session completed" []) := by decide
  refine round.passes_eq_true_iff.mpr ⟨.inr (fun hboth => nomatch hboth.2), ?_⟩
  rw [if_neg (by decide)]
  exact fun hcompleted => hcompleted.elim hlogged fun hboth => nomatch hboth.2

end Drill

end PqcIot
