import PqcIot.Config.Copy
import PqcIot.Crypto.Constant
import PqcIot.Devices.Register

/-!
# The registration tool

`main` of `tools/register_device.py`, on the machine where the firmware is built, with the remote
program of `Register` behind its `ssh`.

* `main_hides` — apart from a fingerprint, what it shows does not depend on the PSK;
* `Tool.Table` — a table in which every device has one key, as the tool writes it. On such tables a
  registration is an assignment to a dictionary (`exec_register`).
-/

namespace PqcIot

open Effects Protocol Text

namespace Devices

/-! ## `main` -/

/-- How the program ends, if it does not return 0. -/
inductive Exit where
  | configMissing
  | extract (macroName : String) (expected : ℕ) (exit : ExtractBytes.Exit)
  | pskZeros
  | idZeros
  | sshFailed (stderr : List Char)
  /-- What `read_text` and `subprocess.run` raise. -/
  | raised
  deriving DecidableEq, Repr

/-- What the program says at its end, where `config` is `args.config` and `str` the text of an
exception; `none` for a traceback. -/
def Exit.message (config : String) (str : ExtractBytes.ByteError → String) : Exit → Option String
  | .configMissing => some (s!"{config} not found. Copy device_config.h.example to " ++
      "device_config.h and fill it in - see docs/provisioning.md")
  | .extract macroName expected exit => some (exit.message macroName expected str)
  | .pskZeros => some "DEVICE_PSK is still all zeros - generate a real one first"
  | .idZeros => some "DEVICE_ID is still all zeros - generate a real one first"
  | .sshFailed stderr => some ("ssh failed:\n" ++ String.ofList stderr)
  | .raised => none

/-- What `subprocess.run` returns. -/
structure Completed where
  returncode : ℤ
  stdout : List Char
  stderr : List Char

/-- What the program does. -/
inductive ToolOp where
  /-- `args.config.exists()`. -/
  | exists
  /-- `args.config.read_text()`. -/
  | readText
  /-- `subprocess.run`. -/
  | run (argv : List (List Char)) (input : List Char)
  | print (line : List Char)

/-- The answers; `none` where an exception is raised. -/
@[reducible]
def ToolOp.Ans : ToolOp → Type
  | .exists => Bool
  | .readText => Option (List Char)
  | .run _ _ => Option Completed
  | .print _ => Unit

abbrev toolOps : Signature := ⟨ToolOp, ToolOp.Ans⟩

/-- The program, or a part of it. -/
abbrev Tool : Type → Type := ExceptT Exit (Prog toolOps)

/-- Perform an operation. -/
def Tool.call (o : ToolOp) : Tool o.Ans := ExceptT.lift (Prog.call (S := toolOps) o)

/-- The answer to an operation that may have raised an exception. -/
def Tool.orRaise {α : Type} : Option α → Tool α
  | some a => pure a
  | none => throw .raised

section Main

variable (P : Prims UInt8) (decimal : Char → Option (Fin 10))
  -- `args.host`, `args.key`, and `encoded`, which is the same in every run.
  (host key encoded : List Char)

/-- The id and the PSK of a configuration, if they are not those of the template. -/
def request (source : List Char) : Except Exit (List UInt8 × List UInt8) := do
  let deviceId ← (ExtractBytes.extractBytes decimal source "DEVICE_ID".toList 8).mapError
    (.extract "DEVICE_ID" 8)
  let psk ← (ExtractBytes.extractBytes decimal source "DEVICE_PSK".toList 32).mapError
    (.extract "DEVICE_PSK" 32)
  -- Only the values of the template are refused; others are not looked at.
  if psk = List.replicate 32 0 then
    throw .pskZeros
  else if deviceId = List.replicate 8 0 then
    throw .idZeros
  else
    return (deviceId, psk)

/-- `fingerprint`. -/
def fingerprint (psk : List UInt8) : List Char := (hexChars (P.sha256 psk)).take 16

/-- The command line of `ssh`. -/
def sshArgv : List (List Char) :=
  ["ssh".toList, "-o".toList, "BatchMode=yes".toList, "-i".toList, key, host,
    "umask 077; mkdir -p ~/pqc-server; python3 -c \"import base64;exec(base64.b64decode('".toList ++
      encoded ++ "'))\"".toList]

/-- What is shown at the end. -/
def reportLines (stdout : List Char) (deviceId psk : List UInt8) : List (List Char) :=
  [strip stdout, "  device_id      : ".toList ++ hexChars deviceId,
    "  psk fingerprint: sha256:".toList ++ fingerprint P psk ++ " (first 8 bytes)".toList,
    "  the PSK itself was not printed and is not in your shell history".toList]

/-- `main`; it returns 0 unless it ends otherwise. -/
def main : Tool Unit := do
  if !(← Tool.call .exists) then
    throw .configMissing
  else
    let source ← Tool.orRaise (← Tool.call .readText)
    let (deviceId, psk) ← (request decimal source : Except Exit (List UInt8 × List UInt8))
    let proc ← Tool.orRaise
      (← Tool.call (.run (sshArgv host key encoded) (registration deviceId psk)))
    if proc.returncode ≠ 0 then
      throw (.sshFailed (strip proc.stderr))
    else
      for line in reportLines P proc.stdout deviceId psk do
        Tool.call (.print line)

/-! ### Operation by operation -/

/-- The loop at the end. -/
def printLines : List (List Char) → Prog toolOps (Except Exit Unit)
  | [] => .ret (.ok ())
  | line :: lines => .op (.print line) fun _ => printLines lines

/-- What is done with an id and a PSK. -/
def register : List UInt8 × List UInt8 → Prog toolOps (Except Exit Unit)
  | (deviceId, psk) => .op (.run (sshArgv host key encoded) (registration deviceId psk)) fun
    | none => .ret (.error .raised)
    | some proc =>
      if proc.returncode ≠ 0 then .ret (.error (.sshFailed (strip proc.stderr)))
      else printLines (reportLines P proc.stdout deviceId psk)

theorem run_printLines (lines : List (List Char)) :
    ExceptT.run (do
      for line in lines do
        Tool.call (.print line) : Tool Unit) = printLines lines := by
  induction lines with
  | nil => rfl
  | cons line lines ih =>
    rw [List.forIn_cons]
    exact congrArg (Prog.op _) (funext fun _ => ih)

theorem run_main : (main P decimal host key encoded).run =
    .op .exists fun found =>
      if found then
        .op .readText fun
          | none => .ret (.error .raised)
          | some source => match request decimal source with
            | .error e => .ret (.error e)
            | .ok ids => register P host key encoded ids
      else .ret (.error .configMissing) := by
  -- From the two values on.
  have hrequest : ∀ r : Except Exit (List UInt8 × List UInt8),
      ExceptT.run (do
        let (deviceId, psk) ← (r : Tool (List UInt8 × List UInt8))
        let proc ← Tool.orRaise
          (← Tool.call (.run (sshArgv host key encoded) (registration deviceId psk)))
        if proc.returncode ≠ 0 then
          throw (.sshFailed (strip proc.stderr))
        else
          for line in reportLines P proc.stdout deviceId psk do
            Tool.call (.print line)) = match r with
      | .error e => .ret (.error e)
      | .ok ids => register P host key encoded ids := by
    rintro (e | ⟨deviceId, psk⟩)
    · rfl
    · refine congrArg (Prog.op _) (funext fun proc => ?_)
      cases proc with
      | none => rfl
      | some proc =>
        show ExceptT.run (if proc.returncode ≠ 0 then throw (.sshFailed (strip proc.stderr)) else do
            for line in reportLines P proc.stdout deviceId psk do
              Tool.call (.print line) : Tool Unit) = if proc.returncode ≠ 0 then _ else _
        split
        · rfl
        · exact run_printLines _
  -- Up to there: the file exists, and its text is read.
  refine congrArg (Prog.op _) (funext fun found => ?_)
  cases found with
  | false => rfl
  | true =>
    refine congrArg (Prog.op _) (funext fun source => ?_)
    cases source with
    | none => rfl
    | some source => exact hrequest (request decimal source)

end Main

/-! ## What it shows -/

/-- What others may see of a run: command lines, and what is printed. -/
inductive Shown where
  | command (argv : List (List Char))
  | line (text : List Char)
  deriving DecidableEq, Repr

/-- What is seen of an operation. What a command reads from a pipe is not. -/
def shown : Event toolOps → Option Shown
  | ⟨.run argv _, _⟩ => some (.command argv)
  | ⟨.print line, _⟩ => some (.line line)
  | _ => none

section Remote

-- The recursion limit of the interpreter on the server, and what it prints for an exception.
variable (limit : ℕ) (traceback : TableExn → List Char)

/-- What `ssh` returns when the remote program has ended. -/
def Completed.ofResult : Except TableExn (List Char) → Completed
  | .ok report => ⟨0, report ++ ['\n'], []⟩
  | .error e => ⟨1, [], traceback e⟩

/-- The remote program behind `ssh`, with its input. -/
def remoteRun (file : Disk) (input : List Char) : Completed × Disk :=
  let result := disk.exec file (remoteProgram limit input).run
  (.ofResult traceback result.1, result.2)

/-- A run of the tool with this configuration. The state is the file on the server. -/
def site (config : Option (List Char)) : Store toolOps Disk where
  answer file
    | .exists => config.isSome
    | .readText => config
    | .run _ input => some (remoteRun limit traceback file input).1
    | .print _ => ()
  next file
    | .run _ input => (remoteRun limit traceback file input).2
    | .exists | .readText | .print _ => file

variable {limit traceback} {file : Disk} {deviceId psk psk' : List UInt8}

theorem exec_store_fst (file : Disk) (r : Except TableExn (Json × List Char)) :
    (disk.exec file (store r)).1 = r.map Prod.snd := by
  rcases r with e | ⟨table, report⟩ <;> rfl

/-- What the remote program reports is the same for all PSKs. -/
theorem remoteProgram_report (limit : ℕ) (file : Disk) (deviceId psk psk' : List UInt8) :
    (disk.exec file (remoteProgram limit (registration deviceId psk)).run).1 =
      (disk.exec file (remoteProgram limit (registration deviceId psk')).run).1 := by
  -- The PSK is a value of the table, and the report only counts the keys.
  have hassign (table : Json) : (assign (hexChars deviceId) (hexChars psk) table).map Prod.snd =
      (assign (hexChars deviceId) (hexChars psk') table).map Prod.snd := by
    cases table with
    | obj members =>
      rw [assign, assign, Dict.length_insert members _ _ (.str (ofChars (hexChars psk')))]
      rfl
    | null | bool b | num literal | str s | arr items => rfl
  have hrevise (bytes : ByteArray) : (revise limit deviceId psk bytes).map Prod.snd =
      (revise limit deviceId psk' bytes).map Prod.snd := by
    rw [revise, revise]
    cases decodeText bytes with
    | error e => rfl
    | ok text =>
      rw [Except.bind, Except.bind]
      cases loadsJson limit text with
      | error e => rfl
      | ok table => exact hassign table
  rw [run_remoteProgram, run_remoteProgram, Store.exec_op, Store.exec_op]
  split
  · rw [Store.exec_op, Store.exec_op]
    split
    · rfl
    · next bytes _ => rw [exec_store_fst, exec_store_fst, hrevise]
  · rw [exec_store_fst, exec_store_fst, hassign]

theorem remoteRun_fst (limit : ℕ) (traceback : TableExn → List Char) (file : Disk)
    (deviceId psk psk' : List UInt8) :
    (remoteRun limit traceback file (registration deviceId psk)).1 =
      (remoteRun limit traceback file (registration deviceId psk')).1 :=
  congrArg (Completed.ofResult traceback) (remoteProgram_report limit file deviceId psk psk')

variable (limit traceback file) (P : Prims UInt8) (decimal : Char → Option (Fin 10))
  (host key encoded : List Char)

theorem exec_printLines (config : Option (List Char)) (lines : List (List Char)) :
    (site limit traceback config).exec file (printLines lines) = (.ok (), file) ∧
      ((site limit traceback config).log file (printLines lines)).filterMap shown =
        lines.map .line := by
  induction lines with
  | nil => exact ⟨rfl, rfl⟩
  | cons line lines ih => exact ⟨ih.1, congrArg (Shown.line line :: ·) ih.2⟩

/-- A configuration that is refused. -/
theorem exec_main_error {source : List Char} {e : Exit} (h : request decimal source = .error e) :
    (site limit traceback (some source)).exec file (main P decimal host key encoded).run =
      (.error e, file) := by
  let q : Prog toolOps (Except Exit Unit) := match request decimal source with
    | .error e => .ret (.error e)
    | .ok ids => register P host key encoded ids
  have hq : q = .ret (.error e) := by
    dsimp only [q]
    rw [h]
  rw [run_main]
  show (site limit traceback (some source)).exec file q = _
  rw [hq, Store.exec_ret]

/-- A run with an id and a PSK: its result, what it leaves on the server, and what is seen of it. -/
theorem exec_main {source : List Char} (hrequest : request decimal source = .ok (deviceId, psk)) :
    let M := site limit traceback (some source)
    let p := (main P decimal host key encoded).run
    let proc := (remoteRun limit traceback file (registration deviceId psk)).1
    M.exec file p = (if proc.returncode ≠
      0 then .error (.sshFailed (strip proc.stderr)) else .ok (),
      (remoteRun limit traceback file (registration deviceId psk)).2) ∧
    (M.log file p).filterMap shown = .command (sshArgv host key encoded) ::
      if proc.returncode ≠ 0 then [] else (reportLines P proc.stdout deviceId psk).map .line := by
  intro M p proc
  let q : Prog toolOps (Except Exit Unit) := match request decimal source with
    | .error e => .ret (.error e)
    | .ok ids => register P host key encoded ids
  have hq : q = register P host key encoded (deviceId, psk) := by
    dsimp only [q]
    rw [hrequest]
  -- The configuration is read, which is not seen.
  have hregister : M.exec file p = M.exec file q ∧
      (M.log file p).filterMap shown = (M.log file q).filterMap shown := by
    rw [show p = _ from run_main ..]
    exact ⟨rfl, rfl⟩
  rw [hregister.1, hregister.2, hq]
  show M.exec _ (if proc.returncode ≠ 0 then .ret (.error (.sshFailed (strip proc.stderr)))
      else printLines (reportLines P proc.stdout deviceId psk)) = _ ∧
    .command (sshArgv host key encoded) :: (M.log _ (if proc.returncode ≠ 0 then
      .ret (.error (.sshFailed (strip proc.stderr)))
      else printLines (reportLines P proc.stdout deviceId psk))).filterMap shown = _
  by_cases hcode : proc.returncode ≠ 0
  · simp only [if_pos hcode]
    exact ⟨rfl, rfl⟩
  · simp only [if_neg hcode]
    obtain ⟨hexec, hlog⟩ := exec_printLines limit traceback
      (remoteRun limit traceback file (registration deviceId psk)).2 (some source)
      (reportLines P proc.stdout deviceId psk)
    exact ⟨hexec, congrArg (Shown.command (sshArgv host key encoded) :: ·) hlog⟩

/-- Apart from a fingerprint, what the tool shows does not depend on the PSK: with two
configurations that have the same id and PSKs with the same fingerprint, whatever the table on the
server holds, the command lines, the lines that are printed and the end of the program are the
same. -/
theorem main_hides {source source' : List Char}
    (hrequest : request decimal source = .ok (deviceId, psk))
    (hrequest' : request decimal source' = .ok (deviceId, psk'))
    (hfingerprint : fingerprint P psk = fingerprint P psk') :
    let p := (main P decimal host key encoded).run
    ((site limit traceback (some source)).exec file p).1 =
        ((site limit traceback (some source')).exec file p).1 ∧
      ((site limit traceback (some source)).log file p).filterMap shown =
        ((site limit traceback (some source')).log file p).filterMap shown := by
  obtain ⟨hexec, hlog⟩ := exec_main limit traceback file P decimal host key encoded hrequest
  obtain ⟨hexec', hlog'⟩ := exec_main limit traceback file P decimal host key encoded hrequest'
  have hproc := remoteRun_fst limit traceback file deviceId psk psk'
  intro p
  rw [hexec, hexec', hlog, hlog', hproc]
  refine ⟨rfl, ?_⟩
  rw [reportLines, reportLines, hfingerprint]

end Remote

section Template

open DeviceConfig

variable (decimal : Char → Option (Fin 10)) (deviceId : {row : List ByteText // row.length = 8})
  (devicePsk : {row : List ByteText // row.length = 32})

/-- A copy of the template with an id and a PSK. -/
theorem request_template (hid : deviceId.1.map ByteText.value ≠ List.replicate 8 0)
    (hpsk : devicePsk.1.map ByteText.value ≠ List.replicate 32 0) :
    request decimal (text (.withBytes deviceId devicePsk)) =
      .ok (deviceId.1.map ByteText.value, devicePsk.1.map ByteText.value) := by
  rw [request, extractBytes_deviceId, extractBytes_devicePsk]
  show (if _ then _ else if _ then _ else _) = _
  rw [if_neg hpsk, if_neg hid]
  rfl

end Template

/-- A copy of the template with another PSK, over primitives with one fingerprint. -/
theorem main_hides_template :
    let id : List ByteText := List.replicate 8 ⟨'0', '1', rfl, rfl⟩
    let psk (b : ByteText) : List ByteText := List.replicate 32 b
    let source (b : ByteText) : List Char :=
      DeviceConfig.text (.withBytes ⟨id, List.length_replicate⟩ ⟨psk b, List.length_replicate⟩)
    let p := (main zeroPrims (fun _ => none) "pi".toList "id_ed25519".toList []).run
    let seen (b : ByteText) :=
      ((site 1000 (fun _ => []) (some (source b))).log ⟨none, 0⟩ p).filterMap shown
    seen ⟨'a', 'b', rfl, rfl⟩ = seen ⟨'C', 'D', rfl, rfl⟩ := by
  intro id psk source p seen
  have hrequest (b : ByteText) (hb : (psk b).map ByteText.value ≠ List.replicate 32 0) :=
    request_template (fun _ => none) ⟨id, List.length_replicate⟩ ⟨psk b, List.length_replicate⟩
      (by decide) hb
  exact (main_hides 1000 (fun _ => []) ⟨none, 0⟩ zeroPrims (fun _ => none) "pi".toList
    "id_ed25519".toList [] (hrequest ⟨'a', 'b', rfl, rfl⟩ (by decide))
    (hrequest ⟨'C', 'D', rfl, rfl⟩ (by decide)) rfl).2

/-! ## The file on the server -/

/-- The file is as the tool leaves it with this table, or there is none yet. -/
structure HoldsTable (file : Disk) (psks : Psks) : Prop where
  keysDiffer : Dict.KeysDiffer psks.entries
  content : (file.content = none ∧ psks.entries = []) ∨
    (file.content = some (tableText (.obj (members psks.entries))) ∧ file.mode = 0o600)

variable {limit : ℕ} {file : Disk} {psks : Psks}

/-- A registration is an assignment to the dictionary. -/
theorem HoldsTable.exec_remoteProgram (h : HoldsTable file psks) (hlimit : 0 < limit)
    {deviceId psk : List UInt8} (hgood : WellFormed (deviceId, psk)) :
    ∃ report file', disk.exec file (remoteProgram limit (registration deviceId psk)).run =
      (.ok report, file') ∧ HoldsTable file' (psks.assign deviceId psk hgood) := by
  have hkeys := h.keysDiffer.insert deviceId psk
  rcases h.content with ⟨hnone, hempty⟩ | ⟨hsome, -⟩
  · -- The program writes a new file.
    obtain ⟨report, hreport⟩ : ∃ report,
        assign (hexChars deviceId) (hexChars psk) (.obj (members psks.entries)) =
          .ok (.obj (members (psks.entries.insert deviceId psk)), report) := by
      rw [members_insert]
      exact ⟨_, rfl⟩
    obtain ⟨content, mode⟩ := file
    obtain rfl : content = none := hnone
    refine ⟨report, ⟨some (tableText (.obj (members (psks.entries.insert deviceId psk)))), 0o600⟩,
      ?_, hkeys, .inr ⟨rfl, rfl⟩⟩
    rw [run_remoteProgram, Store.exec_op]
    show disk.exec _ (store (assign (hexChars deviceId) (hexChars psk) (.obj (members [])))) = _
    rw [← hempty, hreport]
    show (_, (⟨some (overwrite .empty _), 0o600⟩ : Disk)) = _
    rw [overwrite_empty]
  · obtain ⟨report, hrevise⟩ := revise_members hlimit h.keysDiffer deviceId psk
    exact ⟨report, _, Devices.exec_remoteProgram hsome hrevise, hkeys, .inr ⟨rfl, rfl⟩⟩

/-- A table with a device in it has been written. -/
theorem HoldsTable.isSome_content (h : HoldsTable file psks) {deviceId psk : List UInt8}
    (hget : psks.entries.get deviceId = some psk) : file.content.isSome := by
  rcases h.content with ⟨-, hempty⟩ | ⟨hsome, -⟩
  · rw [hempty] at hget
    cases hget
  · rw [hsome]
    rfl

/-- The server loads the table that the tool wrote. -/
theorem HoldsTable.exec_reload {μ : Type} (h : HoldsTable file psks) (hlimit : 0 < limit)
    (hsome : file.content.isSome) (path : String) (mtime : μ) (table : DeviceTable μ) :
    (file.file mtime).exec (reload limit path) table = (.ok (), ⟨psks, some mtime⟩) := by
  rcases h.content with ⟨hnone, -⟩ | ⟨hcontent, hmode⟩
  · rw [hnone] at hsome
    cases hsome
  · exact Disk.exec_reload_ok.mpr ⟨_, hcontent, by rw [hmode]; decide,
      loadTable_members hlimit psks h.keysDiffer, rfl⟩

end Devices

end PqcIot
