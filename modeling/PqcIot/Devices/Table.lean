import PqcIot.Effects.Program
import PqcIot.Protocol.Wire
import PqcIot.Text.Json

/-!
# The device table

`DeviceTable` of `server/pqc_server.py`: the object with its two fields, `_reload` and `psk_for`,
over the file operations they perform. An exception leaves the object as it is at that moment; what
of it `psk_for` catches is in its `except` clause.
-/

namespace PqcIot

open Effects Protocol Text

namespace Devices

variable {μ α γ : Type}

/-! ## The file -/

/-- What `stat` tells. -/
structure Stat (μ : Type) where
  mtime : μ
  mode : ℕ

/-- The operations on the file. -/
inductive FileOp where
  /-- `self.path.exists()`. -/
  | pathExists
  /-- `self.path.stat()`. -/
  | stat
  /-- `self.path.read_text()`, before it is decoded. -/
  | readText

/-- The answers; `none` where an operation raises `OSError`. -/
@[reducible]
def FileOp.Ans (μ : Type) : FileOp → Type
  | .pathExists => Bool
  | .stat => Option (Stat μ)
  | .readText => Option ByteArray

abbrev fileOps (μ : Type) : Signature := ⟨FileOp, FileOp.Ans μ⟩

/-! ## The object -/

/-- The exceptions of the code. -/
inductive TableExn where
  | osError
  /-- `ValueError` with its subclasses `JSONDecodeError` and `UnicodeDecodeError`. -/
  | valueError
  | systemExit (message : String)
  | attributeError
  | typeError
  | recursionError
  deriving DecidableEq, Repr

namespace TableExn

/-- `except (OSError, ValueError)` of `psk_for`. -/
def Caught : TableExn → Prop
  | .osError | .valueError => True
  | .systemExit _ | .attributeError | .typeError | .recursionError => False

instance : DecidablePred Caught := fun e => by
  cases e <;> simp only [Caught] <;> infer_instance

/-- The exception as the callers of `psk_for` see it. -/
def toPyExn : TableExn → PyExn
  | .osError => .osError
  | .valueError => .valueError
  | .systemExit message => .systemExit message
  | .attributeError => .attributeError
  | .typeError => .typeError
  | .recursionError => .recursionError

end TableExn

/-- An id and a PSK of the lengths that the protocol asks for. -/
def WellFormed (entry : List UInt8 × List UInt8) : Prop :=
  entry.1.length = deviceIdLen ∧ entry.2.length = pskLen

instance : DecidablePred WellFormed := fun entry =>
  inferInstanceAs (Decidable (entry.1.length = deviceIdLen ∧ entry.2.length = pskLen))

/-- The PSKs of the devices. -/
structure Psks where
  entries : Dict (List UInt8) (List UInt8)
  wellFormed : ∀ entry ∈ entries, WellFormed entry

/-- The fields of a `DeviceTable`. -/
structure DeviceTable (μ : Type) where
  psks : Psks
  mtime : Option μ

/-- Before anything is loaded. -/
def DeviceTable.empty : DeviceTable μ := ⟨⟨[], nofun⟩, none⟩

/-- `self._psks.get`. -/
def DeviceTable.get (table : DeviceTable μ) (deviceId : List UInt8) : Option (List UInt8) :=
  table.psks.entries.get deviceId

/-- Code of the object: it may raise, and it changes the fields. -/
abbrev Code (μ : Type) : Type → Type := ExceptT TableExn (StateT (DeviceTable μ) (Prog (fileOps μ)))

namespace Code

/-- Perform a file operation. -/
def call (o : FileOp) : Code μ (FileOp.Ans μ o) :=
  ExceptT.lift (StateT.lift (Prog.call (S := fileOps μ) o))

/-- The value of an operation that may have raised `OSError`. -/
def orOSError : Option α → Code μ α
  | some a => pure a
  | none => throw .osError

/-- A pure function that may raise. -/
def ofExcept : Except TableExn α → Code μ α
  | .ok a => pure a
  | .error e => throw e

/-- The rest of a sequence runs where the first part returns. -/
theorem run_bind (c : Code μ α) (f : α → Code μ γ) (table : DeviceTable μ) :
    (c >>= f).run.run table = c.run.run table >>= fun r => match r with
      | (.ok a, table') => (f a).run.run table'
      | (.error e, table') => .ret (.error e, table') := by
  refine (StateT.run_bind ..).trans (bind_congr fun r => ?_)
  rcases r with ⟨e | a, table'⟩ <;> rfl

/-- The handler runs where the body raises, on the fields as they are then. -/
theorem run_tryCatch (c : Code μ α) (handler : TableExn → Code μ α) (table : DeviceTable μ) :
    (tryCatch c handler).run.run table = c.run.run table >>= fun r => match r with
      | (.ok a, table') => .ret (.ok a, table')
      | (.error e, table') => (handler e).run.run table' := by
  simp only [tryCatch, tryCatchThe, MonadExceptOf.tryCatch, ExceptT.tryCatch]
  refine (StateT.run_bind ..).trans (bind_congr fun r => ?_)
  rcases r with ⟨e | a, table'⟩ <;> rfl

end Code

/-! ## Reading the table -/

/-- Text of a file, as UTF-8. Line ends need no translation, as no JSON text depends on them. -/
def decodeText (bytes : ByteArray) : Except TableExn (List Char) :=
  match bytes.utf8Decode? with
  | some chars => .ok chars.toList
  | none => .error .valueError

/-- `json.loads`. -/
def loadsJson (limit : ℕ) (text : List Char) : Except TableExn Json :=
  match Json.loads limit text with
  | .ok raw => .ok raw
  | .error .value => .error .valueError
  | .error .recursion => .error .recursionError

/-- `bytes.fromhex` of a key. -/
def fromhexKey (key : Str) : Except TableExn (List UInt8) :=
  match fromhex key with
  | some bytes => .ok bytes
  | none => .error .valueError

/-- `bytes.fromhex` of a value, which need not be a string. -/
def fromhexValue : Json → Except TableExn (List UInt8)
  | .str s => fromhexKey s
  | _ => .error .typeError

/-- The items of the comprehension, in order. -/
def decodeItems : List (Str × Json) → Except TableExn (List (List UInt8 × List UInt8))
  | [] => .ok []
  | (key, v) :: members => do
    -- The key is decoded before the value: where both are malformed, its exception is raised.
    let did ← fromhexKey key
    let psk ← fromhexValue v
    let items ← decodeItems members
    return (did, psk) :: items

/-- The loop over the entries. -/
def checkEntries : List (List UInt8 × List UInt8) → Except TableExn Unit
  | [] => .ok ()
  | (did, psk) :: entries =>
    if did.length ≠ deviceIdLen ∨ psk.length ≠ pskLen then
      let id := String.ofList (hexChars did)
      .error (.systemExit s!"malformed entry for device {id}")
    else
      checkEntries entries

theorem checkEntries_ok {entries : List (List UInt8 × List UInt8)} :
    checkEntries entries = .ok () ↔ ∀ entry ∈ entries, WellFormed entry := by
  induction entries with
  | nil => exact iff_of_true rfl nofun
  | cons entry entries ih =>
    rw [List.forall_mem_cons, ← ih, checkEntries, WellFormed]
    split
    · next hbad =>
      refine iff_of_false nofun fun hok => ?_
      rcases hbad with hid | hpsk
      · exact hid hok.1.1
      · exact hpsk hok.1.2
    · next hgood =>
      rw [not_or, not_not, not_not] at hgood
      exact (and_iff_right hgood).symm

/-- A check that fails ends the process. -/
theorem checkEntries_error {entries : List (List UInt8 × List UInt8)} {e : TableExn}
    (h : checkEntries entries = .error e) : ∃ message, e = .systemExit message := by
  induction entries with
  | nil => cases h
  | cons entry entries ih =>
    rw [checkEntries] at h
    split at h
    · cases h
      exact ⟨_, rfl⟩
    · exact ih h

/-- The table of a JSON value. -/
def parseTable : Json → Except TableExn Psks
  | .obj members => do
    let items ← decodeItems members
    -- Of keys that are the same bytes, the last one decides.
    let psks := Dict.ofItems items
    match h : checkEntries psks with
    | .ok () => return ⟨psks, checkEntries_ok.mp h⟩
    | .error e => throw e
  -- Only an object has `items`.
  | _ => .error .attributeError

/-- The table of a file's contents. -/
def loadTable (limit : ℕ) (bytes : ByteArray) : Except TableExn Psks := do
  let text ← decodeText bytes
  let raw ← loadsJson limit text
  parseTable raw

/-- The table of a file that was written as text. -/
theorem loadTable_utf8Encode (limit : ℕ) (text : List Char) :
    loadTable limit text.utf8Encode = (loadsJson limit text).bind parseTable := by
  rw [loadTable, decodeText, List.utf8Decode?_utf8Encode]
  rfl

/-! ## The methods -/

section Methods

variable (limit : ℕ) (path : String)

/-- `_reload`. `limit` is the recursion limit of the interpreter. -/
def reload : Code μ Unit := do
  let stat ← Code.orOSError (← Code.call .stat)
  let mode := stat.mode &&& 0o777
  if mode &&& 0o077 ≠ 0 then
    let octal := String.ofList (Nat.toDigits 8 mode)
    throw (.systemExit
      s!"device table {path} has mode {octal}; it holds PSKs and must be 0600")
  else
    let bytes ← Code.orOSError (← Code.call .readText)
    let psks ← Code.ofExcept (loadTable limit bytes)
    modify fun table => { table with psks }
    -- The time is that of the `stat` call, before the text was read.
    modify fun table => { table with mtime := some stat.mtime }

variable [DecidableEq μ]

/-- `psk_for`. -/
def pskFor (deviceId : List UInt8) : Code μ (Option (List UInt8)) := do
  tryCatch
    (do
      let stat ← Code.orOSError (← Code.call .stat)
      if some stat.mtime ≠ (← get).mtime then
        reload limit path)
    fun
      -- The last good table is kept.
      | .osError | .valueError => pure ()
      | e => throw e
  return (← get).get deviceId

/-- `__init__`. -/
def init : Code μ Unit := do
  if !(← Code.call .pathExists) then
    throw (.systemExit
      s!"device table {path} not found - register a device first (tools/register_device.py)")
  else
    reload limit path

end Methods

end Devices

end PqcIot
