import Mathlib.Order.Nat
import PqcIot.Effects.Program
import PqcIot.Effects.Transition

/-!
# The Wi-Fi station

`wifi_sta.c` as a transition system. Two tasks run: the one that calls `wifi_sta_start`, a program
`main` that may do anything else too, and the event task, which runs `on_wifi_event` and
`on_ip_event`, one at a time, on whatever events arrive. They share the event group `s_events`,
which every call of `wifi_sta_start` creates anew; a task that waits for its bits is woken with the
bits of the moment at which they are set.
-/

namespace PqcIot

open Effects
open scoped List

namespace Board

/-! ## Calls -/

/-- `MAX_ATTEMPTS`. -/
def maxAttempts : ℕ := 8

/-- `esp_err_t`. -/
inductive EspErr where
  | ok
  | fail
  | noMem
  | nvsNoFreePages
  | nvsNewVersionFound
  | other (code : Int32)
  deriving DecidableEq, Repr

/-- `BIT_CONNECTED` and `BIT_FAILED`. -/
structure Bits where
  connected : Bool
  failed : Bool
  deriving DecidableEq, Repr

/-- The calls of `wifi_sta_start` that return an `esp_err_t`. -/
inductive EspCall where
  | nvsFlashInit
  | nvsFlashErase
  | espNetifInit
  | espEventLoopCreateDefault
  | espWifiInit
  /-- `esp_event_handler_instance_register`, for `on_wifi_event`. -/
  | registerWifiEvent
  /-- The same for `on_ip_event`. -/
  | registerIpEvent
  | espWifiSetMode
  | espWifiSetConfig (ssid password : List UInt8)
  | espWifiStart

/-- Its calls. -/
inductive WifiOp where
  | esp (call : EspCall)
  | xEventGroupCreate
  /-- For either bit, at most for `CONNECT_TIMEOUT_MS * MAX_ATTEMPTS`; the bits are left as they
  are. -/
  | xEventGroupWaitBits
  /-- What `ESP_ERROR_CHECK` does with an error. -/
  | abort

@[reducible]
def WifiOp.Ans : WifiOp → Type
  | .esp _ => EspErr
  | .xEventGroupCreate => Bool
  | .xEventGroupWaitBits => Bits
  | .abort => Empty

abbrev wifi : Signature := ⟨WifiOp, WifiOp.Ans⟩

/-! ## `wifi_sta_start` -/

section Start

variable {E : Signature} {α : Type}

/-- A call of the task. -/
def wifiCall (o : WifiOp) : Prog (wifi.sum E) o.Ans := Prog.call (S := wifi.sum E) (.inl o)

/-- A call that returns an `esp_err_t`. -/
def espCall (call : EspCall) : Prog (wifi.sum E) EspErr := wifiCall (.esp call)

/-- `ESP_ERROR_CHECK`. -/
def espErrorCheck (err : EspErr) : Prog (wifi.sum E) Unit :=
  if err = .ok then .ret () else .op (.inl .abort) nofun

/-- `ESP_ERROR_CHECK` of a call. -/
def espChecked (call : EspCall) : Prog (wifi.sum E) Unit := espCall call >>= espErrorCheck

/-- Its part from `esp_netif_init` to `esp_wifi_start`; the fields of `wifi_config` have 32 and 64
bytes, the last of which `strlcpy` sets to zero. -/
def startRadio (ssid password : List UInt8) : Prog (wifi.sum E) Unit := do
  espChecked .espNetifInit
  espChecked .espEventLoopCreateDefault
  espChecked .espWifiInit
  espChecked .registerWifiEvent
  espChecked .registerIpEvent
  espChecked .espWifiSetMode
  espChecked (.espWifiSetConfig (ssid.take 31) (password.take 63))
  espChecked .espWifiStart

/-- `wifi_sta_start`. -/
def wifiStaStart (ssid password : List UInt8) : Prog (wifi.sum E) EspErr := do
  let err ← espCall .nvsFlashInit
  -- A flash that is full or of another version is erased, and initialised once more.
  let err ← (if err = .nvsNoFreePages ∨ err = .nvsNewVersionFound then do
    espChecked .nvsFlashErase
    espCall .nvsFlashInit
  else
    pure err)
  espErrorCheck err
  -- The handlers, which set the bits, are registered after the group has been created.
  if ← wifiCall .xEventGroupCreate then
    startRadio ssid password
    let bits ← wifiCall .xEventGroupWaitBits
    return if bits.connected then .ok else .fail
  else
    return .noMem

section Spec

open Prog

variable {φ : List (Event (wifi.sum E)) → (wifi.sum E).Op → Prop}
  {ψ : List (Event (wifi.sum E)) → α → Prop} {h : List (Event (wifi.sum E))}

/-- A call has succeeded, in the log. -/
abbrev espOk (call : EspCall) : Event (wifi.sum E) := ⟨.inl (.esp call), EspErr.ok⟩

/-- Behind `ESP_ERROR_CHECK` there has been no error. -/
theorem spec_espErrorCheck {err : EspErr} {f : Unit → Prog (wifi.sum E) α}
    (habort : φ h (.inl .abort)) (hf : err = .ok → Spec φ ψ h (f ())) :
    Spec φ ψ h (espErrorCheck err >>= f) := by
  rw [espErrorCheck]
  split
  · next hok => exact hf hok
  · exact ⟨habort, nofun⟩

/-- A call, with any error code. -/
theorem spec_espCall {call : EspCall} {f : EspErr → Prog (wifi.sum E) α} (hφ : ∀ h o, φ h (.inl o))
    (hf : ∀ err : EspErr, Spec φ ψ (h ++ [⟨.inl (.esp call), err⟩]) (f err)) :
    Spec φ ψ h (espCall call >>= f) := ⟨hφ _ _, hf⟩

/-- A checked call goes on only if it succeeded. -/
theorem spec_espChecked {call : EspCall} {f : Unit → Prog (wifi.sum E) α}
    (hφ : ∀ h o, φ h (.inl o)) (hf : Spec φ ψ (h ++ [espOk call]) (f ())) :
    Spec φ ψ h (espChecked call >>= f) := by
  rw [espChecked, bind_assoc]
  exact spec_espCall hφ fun err => spec_espErrorCheck (hφ _ _) fun hok => by rwa [hok]

/-- The calls of a started radio. -/
def radioLog (ssid password : List UInt8) : List (Event (wifi.sum E)) :=
  [espOk .espNetifInit, espOk .espEventLoopCreateDefault, espOk .espWifiInit,
    espOk .registerWifiEvent, espOk .registerIpEvent, espOk .espWifiSetMode,
    espOk (.espWifiSetConfig (ssid.take 31) (password.take 63)), espOk .espWifiStart]

/-- The calls that start the radio, all checked. -/
theorem spec_startRadio (ssid password : List UInt8) {f : Unit → Prog (wifi.sum E) α}
    (hφ : ∀ h o, φ h (.inl o)) (hf : Spec φ ψ (h ++ radioLog ssid password) (f ())) :
    Spec φ ψ h (startRadio ssid password >>= f) := by
  unfold startRadio
  simp only [bind_assoc]
  -- One `ESP_ERROR_CHECK` for each call of `radioLog`.
  iterate 8 refine spec_espChecked hφ ?_
  simpa only [radioLog, List.append_assoc, List.cons_append, List.nil_append] using hf

/-- The calls before the event group is created. -/
def FlashLog (log : List (Event (wifi.sum E))) : Prop :=
  ∀ e ∈ log, ∃ (call : EspCall) (err : EspErr), e = ⟨.inl (.esp call), err⟩

/-- The outcome of `wifi_sta_start` and what it has called: the event group was not created, or the
radio was started and the task has waited for the bits. -/
def StartOutcome (ssid password : List UInt8) (log : List (Event (wifi.sum E))) (err : EspErr) :
    Prop :=
  ∃ flash, FlashLog flash ∧
    ((err = .noMem ∧ log = flash ++ [⟨.inl .xEventGroupCreate, false⟩]) ∨
      ∃ bits : Bits, log = flash ++ [⟨.inl .xEventGroupCreate, true⟩] ++ radioLog ssid password ++
          [⟨.inl .xEventGroupWaitBits, bits⟩] ∧
        err = if bits.connected then .ok else .fail)

/-- `wifi_sta_start` returns by one of its outcomes. -/
theorem spec_wifiStaStart (ssid password : List UInt8) (hφ : ∀ h o, φ h (.inl o)) :
    Spec φ (fun h' err => ∃ log, h' = h ++ log ∧ StartOutcome ssid password log err) h
      (wifiStaStart ssid password) := by
  -- From the flash on, however it has been initialised.
  have hchecked : ∀ (flash : List (Event (wifi.sum E))) (err : EspErr), FlashLog flash →
      Spec φ (fun h' err => ∃ log, h' = h ++ log ∧ StartOutcome ssid password log err) (h ++ flash)
        (do
          espErrorCheck err
          if ← wifiCall .xEventGroupCreate then
            startRadio ssid password
            let bits ← wifiCall .xEventGroupWaitBits
            return if bits.connected then .ok else .fail
          else
            return .noMem) := by
    refine fun flash err hflash => spec_espErrorCheck (hφ _ _) fun _ => ⟨hφ _ _, fun created => ?_⟩
    cases created with
    | false => exact ⟨_, List.append_assoc .., flash, hflash, .inl ⟨rfl, rfl⟩⟩
    | true =>
      refine spec_startRadio ssid password hφ ⟨hφ _ _, fun bits => ?_⟩
      refine ⟨_, ?_, flash, hflash, .inr ⟨bits, rfl, rfl⟩⟩
      simp only [List.append_assoc]
  -- The flash is either initialised at once or erased first.
  refine spec_espCall hφ fun err => ?_
  split
  · rw [bind_assoc]
    refine spec_espChecked hφ (spec_espCall hφ fun err' => ?_)
    rw [List.append_assoc, List.append_assoc]
    refine hchecked _ err' ?_
    rintro e (_ | ⟨_, _ | ⟨_, _ | ⟨_, hmem⟩⟩⟩)
    · exact ⟨_, _, rfl⟩
    · exact ⟨_, _, rfl⟩
    · exact ⟨_, _, rfl⟩
    · cases hmem
  · refine hchecked _ err ?_
    rintro e (_ | ⟨_, hmem⟩)
    · exact ⟨_, _, rfl⟩
    · cases hmem

end Spec

end Start

/-! ## The system -/

/-- What is dispatched to the handlers: events of `WIFI_EVENT`, and `IP_EVENT_STA_GOT_IP`. -/
inductive WifiEvent where
  | staStart
  | staDisconnected
  | gotIp
  | other

/-- Where the event task is. -/
inductive Handler where
  | idle
  /-- In `vTaskDelay`. -/
  | delaying
  /-- About to call `esp_wifi_connect`. -/
  | connecting
  /-- About to set `BIT_FAILED`. -/
  | failing
  /-- About to reset `s_attempts`. -/
  | resetting
  /-- About to set `BIT_CONNECTED`. -/
  | joining

/-- Where the task is in `xEventGroupWaitBits`. -/
inductive Wait where
  /-- Not in it. -/
  | idle
  | blocked
  /-- The time is over. -/
  | expired
  /-- A bit has been set, with these bits. -/
  | woken (bits : Bits)

section System

variable {E : Signature} {α : Type}

/-- The rest of the task, the event task, and what they share. -/
structure Station (E : Signature) (α : Type) where
  main : Prog (wifi.sum E) α
  wait : Wait
  handler : Handler
  /-- Whether `on_wifi_event` is registered. -/
  onWifiEvent : Bool
  /-- Whether `on_ip_event` is. -/
  onIpEvent : Bool
  sAttempts : ℕ
  /-- The bits of the event group; there is none while `s_events` is `NULL`. -/
  sEvents : Option Bits

/-- After a reset. -/
def Station.start (main : Prog (wifi.sum E) α) : Station E α :=
  ⟨main, .idle, .idle, false, false, 0, none⟩

/-- A task that waits for the bits is woken. -/
def Wait.wake (bits : Bits) : Wait → Wait
  | .blocked => .woken bits
  | wait => wait

/-- The statements of the two tasks. -/
inductive Label (E : Signature) where
  /-- The task has called and got its answer. -/
  | call (e : Event (wifi.sum E))
  | block
  | expire
  | dispatch (event : WifiEvent)
  | delayed
  /-- `esp_wifi_connect`. -/
  | connect
  | setFailed
  | resetAttempts
  | setConnected

/-- What `on_wifi_event` and `on_ip_event` do first; `s_attempts` is the event task's own. -/
def Station.dispatch (s : Station E α) : WifiEvent → Station E α
  | .staStart => { s with handler := .connecting }
  | .staDisconnected =>
    if s.sAttempts < maxAttempts then
      { s with sAttempts := s.sAttempts + 1, handler := .delaying }
    else
      { s with handler := .failing }
  | .gotIp => { s with handler := .resetting }
  | .other => s

/-- The handler of the event is registered. -/
def Station.Registered (s : Station E α) : WifiEvent → Prop
  | .gotIp => s.onIpEvent = true
  | .staStart | .staDisconnected | .other => s.onWifiEvent = true

/-- A call that returns at once. -/
def Station.answer (s : Station E α) (main : Prog (wifi.sum E) α) :
    Event (wifi.sum E) → Station E α
  | ⟨.inl (.esp .registerWifiEvent), .ok⟩ => { s with main, onWifiEvent := true }
  | ⟨.inl (.esp .registerIpEvent), .ok⟩ => { s with main, onIpEvent := true }
  -- `s_events = xEventGroupCreate()`: another group, or `NULL`.
  | ⟨.inl .xEventGroupCreate, true⟩ => { s with main, sEvents := some ⟨false, false⟩ }
  | ⟨.inl .xEventGroupCreate, false⟩ => { s with main, sEvents := none }
  | _ => { s with main }

/-- `wifi_sta_is_connected`. -/
def wifiStaIsConnected (s : Station E α) : Bool :=
  match s.sEvents with
  | none => false
  | some bits => bits.connected

/-- One statement is executed. A task that sets or waits for bits of `NULL` fails an assertion of
the kernel, which ends the run. -/
inductive Station.Step : Station E α → Label E → Station E α → Prop
  | call {s : Station E α} {o : (wifi.sum E).Op} {k : (wifi.sum E).Ans o → Prog (wifi.sum E) α}
      (a : (wifi.sum E).Ans o) : s.main = .op o k → o ≠ .inl .xEventGroupWaitBits →
      Step s (.call ⟨o, a⟩) (s.answer (k a) ⟨o, a⟩)
  /-- A bit is set already. -/
  | pass {s : Station E α} {k : Bits → Prog (wifi.sum E) α} {bits : Bits} :
      s.main = .op (.inl .xEventGroupWaitBits) k → s.wait = .idle → s.sEvents = some bits →
      bits ≠ ⟨false, false⟩ →
      Step s (.call ⟨.inl .xEventGroupWaitBits, bits⟩) { s with main := k bits }
  | block {s : Station E α} {k : Bits → Prog (wifi.sum E) α} :
      s.main = .op (.inl .xEventGroupWaitBits) k → s.wait = .idle →
      s.sEvents = some ⟨false, false⟩ → Step s .block { s with wait := .blocked }
  | expire {s : Station E α} : s.wait = .blocked → Step s .expire { s with wait := .expired }
  /-- The bits are read once more when the time is over. -/
  | giveUp {s : Station E α} {k : Bits → Prog (wifi.sum E) α} {bits : Bits} :
      s.main = .op (.inl .xEventGroupWaitBits) k → s.wait = .expired → s.sEvents = some bits →
      Step s (.call ⟨.inl .xEventGroupWaitBits, bits⟩) { s with main := k bits, wait := .idle }
  | resume {s : Station E α} {k : Bits → Prog (wifi.sum E) α} {bits : Bits} :
      s.main = .op (.inl .xEventGroupWaitBits) k → s.wait = .woken bits →
      Step s (.call ⟨.inl .xEventGroupWaitBits, bits⟩) { s with main := k bits, wait := .idle }
  | dispatch {s : Station E α} (event : WifiEvent) : s.handler = .idle → s.Registered event →
      Step s (.dispatch event) (s.dispatch event)
  | delayed {s : Station E α} : s.handler = .delaying →
      Step s .delayed { s with handler := .connecting }
  | connect {s : Station E α} : s.handler = .connecting →
      Step s .connect { s with handler := .idle }
  | setFailed {s : Station E α} {bits : Bits} : s.handler = .failing → s.sEvents = some bits →
      Step s .setFailed { s with
        handler := .idle
        sEvents := some { bits with failed := true }
        wait := s.wait.wake { bits with failed := true } }
  | resetAttempts {s : Station E α} : s.handler = .resetting →
      Step s .resetAttempts { s with sAttempts := 0, handler := .joining }
  | setConnected {s : Station E α} {bits : Bits} : s.handler = .joining → s.sEvents = some bits →
      Step s .setConnected { s with
        handler := .idle
        sEvents := some { bits with connected := true }
        wait := s.wait.wake { bits with connected := true } }

end System

end Board

end PqcIot
