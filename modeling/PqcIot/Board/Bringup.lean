import PqcIot.Board.Kat
import PqcIot.Board.Wifi
import PqcIot.Firmware.Session
import PqcIot.Numeric.Rounding

/-!
# The firmware's main program

`main.c` and `mlkem_selftest.c`: `app_main` checks the board and the ML-KEM implementation, then
starts the radio, then runs a session in each mode. What it prints is left out, but for the outcome.
-/

namespace PqcIot

open Effects

namespace Board

open KatHeader (MlKem symBytes)
open Numeric (roundRat)

/-! ## The self-test -/

section SelfTest

/-- `fill_pattern`. -/
def fillPattern (len : ℕ) (seed : UInt8) : Vector UInt8 len :=
  .ofFn fun i => UInt8.ofNat (seed.toNat + i * 7)

/-- `roundtrip_512` and `roundtrip_768`, which differ in the parameter set and the coins. -/
def roundtrip {lvl : KatHeader.Level} (impl : MlKem lvl) (keygenSeed encSeed : UInt8) : Bool :=
  let keygenCoins := fillPattern (symBytes + symBytes) keygenSeed
  let encCoins := fillPattern symBytes encSeed
  let (rc, pk, sk) := impl.keypairDerand keygenCoins
  if rc ≠ 0 then
    false
  else
    let (rc, ct, ssEnc) := impl.encDerand pk encCoins
    if rc ≠ 0 then
      false
    else
      let (rc, ssDec) := impl.dec ct sk
      if rc ≠ 0 then false else ssEnc == ssDec

variable (impl : ∀ lvl, MlKem lvl)

/-- `roundtrip_512`. -/
def roundtrip512 : Bool := roundtrip (impl .mlkem512) 0x11 0x22

/-- `roundtrip_768`. -/
def roundtrip768 : Bool := roundtrip (impl .mlkem768) 0x33 0x44

/-- `implicit_rejection_768`. -/
def implicitRejection768 : Bool :=
  let keygenCoins := fillPattern (symBytes + symBytes) 0x55
  let encCoins := fillPattern symBytes 0x66
  let (rc, pk, sk) := (impl .mlkem768).keypairDerand keygenCoins
  if rc ≠ 0 then
    false
  else
    let (rc, ct, ssEnc) := (impl .mlkem768).encDerand pk encCoins
    if rc ≠ 0 then
      false
    else
      -- One bit of the ciphertext is flipped; `dec` succeeds, with another secret.
      let ct := ct.set 0 (ct.get ⟨0, by decide⟩ ^^^ 0x01) (by decide)
      let (rc, ssDec) := (impl .mlkem768).dec ct sk
      if rc ≠ 0 then false else ssEnc != ssDec

/-- `mlkem_selftest_run`; all three tests are run. -/
def mlkemSelftestRun : Bool :=
  let ok := true
  let ok := ok && roundtrip512 impl
  let ok := ok && roundtrip768 impl
  ok && implicitRejection768 impl

end SelfTest

/-! ## Calls -/

/-- Calls of `main.c`. -/
inductive BoardOp where
  | malloc (size : ℕ)
  /-- With `MALLOC_CAP_SPIRAM`. -/
  | heapCapsMalloc (size : ℕ)
  | espPtrInternal (p : UInt32)
  | espPtrExternalRam (p : UInt32)
  | free (p : UInt32)
  | heapCapsFree (p : UInt32)
  | espTimerGetTime
  | espCpuGetCycleCount
  /-- The busy wait goes on. -/
  | spin

@[reducible]
def BoardOp.Ans : BoardOp → Type
  | .malloc _ | .heapCapsMalloc _ => Option UInt32
  | .espPtrInternal _ | .espPtrExternalRam _ => Bool
  | .free _ | .heapCapsFree _ => Unit
  | .espTimerGetTime => Int64
  | .espCpuGetCycleCount => UInt32
  | .spin => Empty

abbrev board : Signature := ⟨BoardOp, BoardOp.Ans⟩

/-- What `app_main` calls, beside the station: the board, and the calls of a session. -/
abbrev peripherals (β : Type) : Signature := board.sum (Firmware.calls β)

abbrev device (β : Type) : Signature := wifi.sum (peripherals β)

section Main

variable {β : Type}

/-- A call of `main.c`. -/
def boardCall (o : BoardOp) : Prog (device β) o.Ans := Prog.call (S := device β) (.inr (.inl o))

/-! ## Checks -/

/-- `CRYPTO_SCRATCH_BYTES`. -/
def cryptoScratchBytes : ℕ := 8192

/-- `verify_buffer_placement`. -/
def verifyBufferPlacement : Prog (device β) Bool := do
  match ← boardCall (.malloc cryptoScratchBytes) with
  | none => return false
  | some scratch =>
    let scratchInternal ← boardCall (.espPtrInternal scratch)
    boardCall (.free scratch)
    -- The other memory has to be there too, or the board is not the one that is described.
    match ← boardCall (.heapCapsMalloc cryptoScratchBytes) with
    | none => return false
    | some external =>
      let externalIsPsram ← boardCall (.espPtrExternalRam external)
      boardCall (.heapCapsFree external)
      return scratchInternal && externalIsPsram

/-- `window_us`. -/
def windowUs : Int64 := 200000

/-- The busy wait, of at most so many turns: after these, it has not ended yet. -/
def busyWait (t0 : Int64) : ℕ → Prog (device β) Unit
  | 0 => do
    let never ← boardCall .spin
    nomatch never
  | turns + 1 => do
    let now ← boardCall .espTimerGetTime
    if now - t0 < windowUs then busyWait t0 turns else return ()

/-- `CONFIG_ESP_DEFAULT_CPU_FREQ_MHZ`, as `sdkconfig.defaults` chooses it. -/
def cpuFreqMhz : ℤ := 240

/-- The computation at the end of `verify_cycle_counter`, in `double`. -/
def clockOk (cycles : UInt32) (elapsedUs : Int64) : Bool :=
  if elapsedUs = 0 then
    -- The quotient is infinite or not a number, and so is its deviation, which is not below 2.0.
    false
  else
    let measuredMhz := roundRat (roundRat cycles.toNat / roundRat elapsedUs.toInt)
    let deviation := roundRat (measuredMhz - cpuFreqMhz)
    let deviation := if deviation < 0 then -deviation else deviation
    decide (deviation < 2)

/-- `verify_cycle_counter`. -/
def verifyCycleCounter (turns : ℕ) : Prog (device β) Bool := do
  let t0 ← boardCall .espTimerGetTime
  let c0 ← boardCall .espCpuGetCycleCount
  busyWait t0 turns
  let c1 ← boardCall .espCpuGetCycleCount
  let t1 ← boardCall .espTimerGetTime
  return clockOk (c1 - c0) (t1 - t0)

/-! ## `app_main` -/

/-- How `app_main` ends, by what it has printed last. -/
inductive Outcome where
  /-- `bring-up failed - not starting the protocol client`. -/
  | bringUpFailed
  /-- `no network - protocol client not started`. -/
  | noNetwork
  /-- `session completed`. -/
  | sessionCompleted
  /-- `session failed`, with the results of the two modes. -/
  | sessionFailed (modeA modeB : Bool)
  deriving DecidableEq, Repr

/-- A session, in the memory that the one before has left. -/
def session {α : Type} (c : Firmware.Code β α) (m : Firmware.Memory β) :
    Prog (device β) (α × Firmware.Memory β) :=
  Prog.interp (fun o => Prog.call (S := device β) (.inr (.inr o))) (c.run m)

/-- What the firmware is built from: the header with the vectors, the library, the configuration. -/
structure Build (β : Type) where
  vectors : List Char
  impl : ∀ lvl, MlKem lvl
  P : Prims β
  cfg : Firmware.Config β
  ssid : List UInt8
  password : List UInt8
  /-- The test of the vectors, as it runs on the board. -/
  katOk : Bool
  katOk_eq : KatHeader.mlkemKatRun vectors impl = some katOk

/-- `app_main`, when all checks have passed. -/
def protocolClient (b : Build β) (m : Firmware.Memory β) : Prog (device β) Outcome := do
  if (← wifiStaStart b.ssid b.password) ≠ .ok then
    return .noNetwork
  else
    let (modeA, m) ← session (Firmware.pqcSessionRun b.P b.cfg .a 3) m
    let (modeB, _) ← session (Firmware.pqcSessionRun b.P b.cfg .bForwardSecrecy 3) m
    if modeA && modeB then
      return .sessionCompleted
    else
      return .sessionFailed modeA modeB

/-- `app_main`. -/
def appMain (b : Build β) (turns : ℕ) (m : Firmware.Memory β) : Prog (device β) Outcome := do
  let placementOk ← verifyBufferPlacement
  let counterOk ← verifyCycleCounter turns
  let selftestOk := mlkemSelftestRun b.impl
  -- All checks have run before their results are looked at.
  if !(placementOk && counterOk && selftestOk && b.katOk) then
    return .bringUpFailed
  else
    protocolClient b m

end Main

end Board

end PqcIot
