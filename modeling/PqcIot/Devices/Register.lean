import PqcIot.Devices.Reload
import PqcIot.Effects.Interference
import PqcIot.Effects.Results

/-!
# Registering a device

The remote program of `tools/register_device.py`, which reads the table of the server, assigns to
the string key that stands for the device, and writes the table back. `_reload` decodes the keys, so
two keys may be the same device to the server: the last one decides.

* `disk` — the file as the program uses it: opening for writing truncates it, and the text is
  written from the start;
* `remoteProgram_registers_iff` — when a registration takes effect.
-/

namespace PqcIot

open Effects Protocol Text

namespace Devices

variable {μ : Type}

/-! ## The remote program -/

/-- The operations on the file. -/
inductive RemoteOp where
  /-- `path.exists()`. -/
  | pathExists
  /-- `path.read_text()`, before it is decoded. -/
  | readText
  /-- `path.write_text(…)` opens the file, which truncates it. -/
  | truncate
  /-- `path.write_text(…)` writes to what it has opened, from the start. -/
  | writeText (bytes : ByteArray)
  /-- `path.chmod(…)`. -/
  | chmod (mode : ℕ)

/-- The answers; `none` where an operation raises `OSError`. -/
@[reducible]
def RemoteOp.Ans : RemoteOp → Type
  | .pathExists => Bool
  | .readText => Option ByteArray
  | .truncate | .writeText _ | .chmod _ => Option Unit

abbrev remoteOps : Signature := ⟨RemoteOp, RemoteOp.Ans⟩

/-- `readline`: the first line, and what comes after it. -/
def readline (text : List Char) : List Char × List Char :=
  (text.takeWhile (· ≠ '\n') ++ ((text.dropWhile (· ≠ '\n')).take 1),
    (text.dropWhile (· ≠ '\n')).drop 1)

/-- `table[device_id] = psk`, with what the program says of it. The test for the key and the
assignment both work for an object only. -/
def assign (deviceId psk : List Char) : Json → Except TableExn (Json × List Char)
  | .obj members =>
    let action := if (Dict.get members (ofChars deviceId)).isSome then "updated" else "added"
    let table := Dict.insert members (ofChars deviceId) (.str (ofChars psk))
    let holds := s!"; table now holds {table.length} device(s)"
    .ok (.obj table, action.toList ++ [' '] ++ deviceId ++ holds.toList)
  | _ => .error .typeError

/-- The program, or a part of it: it may raise. -/
abbrev RemoteCode : Type → Type := ExceptT TableExn (Prog remoteOps)

namespace RemoteCode

/-- Perform a file operation. -/
def call (o : RemoteOp) : RemoteCode o.Ans := ExceptT.lift (Prog.call (S := remoteOps) o)

/-- The value of an operation that may have raised `OSError`. -/
def orOSError {α : Type} : Option α → RemoteCode α
  | some a => pure a
  | none => throw .osError

end RemoteCode

/-- `json.loads(path.read_text()) if path.exists() else {}`. -/
def readTable (limit : ℕ) : RemoteCode Json := do
  if ← RemoteCode.call .pathExists then
    let bytes ← RemoteCode.orOSError (← RemoteCode.call .readText)
    let text ← (decodeText bytes : Except TableExn (List Char))
    (loadsJson limit text : Except TableExn Json)
  else
    return .obj []

/-- Text as it is written, in UTF-8. -/
def encodeText (text : List Char) : ByteArray := (String.ofList text).toUTF8

/-- What was written is read. -/
theorem decodeText_encodeText (text : List Char) : decodeText (encodeText text) = .ok text := by
  have hencode : encodeText text = text.utf8Encode := String.toByteArray_ofList
  rw [hencode, decodeText, List.utf8Decode?_utf8Encode]

/-- `path.write_text(json.dumps(table, indent=2) + "\n")` and `path.chmod(0o600)`. -/
def writeTable (table : Json) : RemoteCode Unit := do
  -- Between these two calls a reader finds an empty file.
  RemoteCode.orOSError (← RemoteCode.call .truncate)
  RemoteCode.orOSError (← RemoteCode.call (.writeText (encodeText (table.dumps 0 ++ ['\n']))))
  RemoteCode.orOSError (← RemoteCode.call (.chmod 0o600))

/-- `remote_program`; the result is what it prints. -/
def remoteProgram (limit : ℕ) (stdin : List Char) : RemoteCode (List Char) := do
  let table ← readTable limit
  let (deviceId, stdin) := readline stdin
  let (psk, _) := readline stdin
  let (table, report) ← (assign (strip deviceId) (strip psk) table :
    Except TableExn (Json × List Char))
  writeTable table
  return report

/-- What `main` gives the program on its standard input. -/
def registration (deviceId psk : List UInt8) : List Char :=
  hexChars deviceId ++ '\n' :: (hexChars psk ++ ['\n'])

/-- Digits are no white space, nor do they end a line. -/
theorem digit_of_mem_hexChars {bytes : List UInt8} {c : Char} (h : c ∈ hexChars bytes) :
    isWhitespace c = false ∧ c ≠ '\n' := by
  obtain ⟨b, -, hc⟩ := List.mem_flatMap.mp h
  have hlt : b.toNat < 256 := b.toNat_lt
  have hdigit : ∀ n < 16, isWhitespace (digitChar n) = false ∧ digitChar n ≠ '\n' := by
    decide +kernel
  rcases List.mem_pair.mp hc with rfl | rfl
  · exact hdigit _ (by omega)
  · exact hdigit _ (Nat.mod_lt _ (by decide))

/-- A line of digits is read as the digits. -/
theorem strip_readline (bytes : List UInt8) (rest : List Char) :
    strip (readline (hexChars bytes ++ '\n' :: rest)).1 = hexChars bytes ∧
      (readline (hexChars bytes ++ '\n' :: rest)).2 = rest := by
  have hline : ∀ c ∈ hexChars bytes, decide (c ≠ '\n') = true := fun c hc =>
    decide_eq_true (digit_of_mem_hexChars hc).2
  rw [readline, List.takeWhile_append_of_pos hline, List.dropWhile_append_of_pos hline]
  refine ⟨?_, rfl⟩
  show strip (hexChars bytes ++ [] ++ ['\n']) = hexChars bytes
  rw [List.append_nil]
  exact strip_pad [] _ _ nofun (fun c hc => (digit_of_mem_hexChars hc).1)
    (List.forall_mem_singleton.mpr rfl)

/-! ## What it does -/

section Program

variable (limit : ℕ) (deviceId psk : List UInt8)

/-- The new table, from the contents of the file. -/
def revise (bytes : ByteArray) : Except TableExn (Json × List Char) :=
  (decodeText bytes).bind fun text => (loadsJson limit text).bind fun table =>
    assign (hexChars deviceId) (hexChars psk) table

/-- The file with a new table. -/
def tableText (table : Json) : ByteArray := encodeText (table.dumps 0 ++ ['\n'])

/-- What the program does with the new table. -/
def store : Except TableExn (Json × List Char) → Prog remoteOps (Except TableExn (List Char))
  | .error e => .ret (.error e)
  | .ok (table, report) => .op .truncate fun
    | none => .ret (.error .osError)
    | some () => .op (.writeText (tableText table)) fun
      | none => .ret (.error .osError)
      | some () => .op (.chmod 0o600) fun
        | none => .ret (.error .osError)
        | some () => .ret (.ok report)

/-- The program, operation by operation. -/
theorem run_remoteProgram : (remoteProgram limit (registration deviceId psk)).run =
    .op .pathExists fun found =>
      if found then
        .op .readText fun
          | none => .ret (.error .osError)
          | some bytes => store (revise limit deviceId psk bytes)
      else
        store (assign (hexChars deviceId) (hexChars psk) (.obj [])) := by
  have hid := strip_readline deviceId (hexChars psk ++ '\n' :: [])
  have hpsk := strip_readline psk []
  -- From the new table on, the program is `store`.
  have hwrite : ∀ r : Except TableExn (Json × List Char),
      ExceptT.run (do
        let (table, report) ← (r : RemoteCode (Json × List Char))
        writeTable table
        return report) = store r := by
    rintro (e | ⟨table, report⟩)
    · rfl
    · refine congrArg (Prog.op _) (funext fun opened => ?_)
      cases opened with
      | none => rfl
      | some _ =>
        refine congrArg (Prog.op _) (funext fun written => ?_)
        cases written with
        | none => rfl
        | some _ => exact congrArg (Prog.op _) (funext fun changed => by cases changed <;> rfl)
  rw [remoteProgram]
  simp only [registration, hid.1, hid.2, hpsk.1]
  refine congrArg (Prog.op _) (funext fun found => ?_)
  -- Without a file the old table is empty.
  cases found with
  | false => exact hwrite _
  | true =>
    refine congrArg (Prog.op _) (funext fun content => ?_)
    cases content with
    | none => rfl
    | some bytes =>
      show ExceptT.run (((do
        let text ← (decodeText bytes : Except TableExn (List Char))
        (loadsJson limit text : Except TableExn Json)) : RemoteCode Json) >>= fun table => do
          let (table, report) ← (assign (hexChars deviceId) (hexChars psk) table :
            Except TableExn (Json × List Char))
          writeTable table
          return report) = store (revise limit deviceId psk bytes)
      rw [revise]
      cases decodeText bytes with
      | error e => rfl
      | ok text =>
        show ExceptT.run ((loadsJson limit text : RemoteCode Json) >>= fun table => do
          let (table, report) ← (assign (hexChars deviceId) (hexChars psk) table :
            Except TableExn (Json × List Char))
          writeTable table
          return report) = store ((loadsJson limit text).bind _)
        cases loadsJson limit text with
        | error e => rfl
        | ok table => exact hwrite _

end Program

/-! ## The file -/

/-- The file on the server. -/
structure Disk where
  /-- `none` if there is no such file. -/
  content : Option ByteArray
  mode : ℕ

/-- Writing from the start of a file. -/
def overwrite (old bytes : ByteArray) : ByteArray := bytes ++ old.extract bytes.size old.size

/-- How the program's operations act on the file. It runs under umask 077. -/
def disk : Store remoteOps Disk where
  answer file
    | .pathExists => file.content.isSome
    | .readText => file.content
    | .truncate | .writeText _ | .chmod _ => some ()
  next file
    | .pathExists | .readText => file
    | .truncate => ⟨some .empty, if file.content.isSome then file.mode else 0o600⟩
    | .writeText bytes => { file with content := file.content.map (overwrite · bytes) }
    | .chmod mode => { file with mode }

/-- What the server sees of it. -/
def Disk.file (file : Disk) (mtime : μ) : FileState μ :=
  ⟨file.content.map fun _ => ⟨mtime, file.mode⟩, file.content⟩

@[simp]
theorem overwrite_empty (bytes : ByteArray) : overwrite .empty bytes = bytes := by
  rw [overwrite, ByteArray.extract_eq_empty_iff.mpr (Nat.zero_le _), ByteArray.append_empty]

/-! ## Tables before and after -/

/-- A file that is accepted: a JSON object whose members decode to the table. -/
theorem loadTable_ok {limit : ℕ} {bytes : ByteArray} {psks : Psks} :
    loadTable limit bytes = .ok psks ↔ ∃ text members items, decodeText bytes = .ok text ∧
      loadsJson limit text = .ok (.obj members) ∧ decodeItems members = .ok items ∧
        Dict.ofItems items = psks.entries := by
  have hload : loadTable limit bytes = (decodeText bytes).bind fun text =>
      (loadsJson limit text).bind parseTable := rfl
  rw [hload]
  refine ⟨fun h => ?_, ?_⟩
  · obtain ⟨text, htext, h⟩ := bind_eq_ok.mp h
    obtain ⟨raw, hraw, h⟩ := bind_eq_ok.mp h
    -- Only an object has members.
    cases raw with
    | null | bool b | num literal | str s | arr items => cases h
    | obj members =>
      rw [parseTable_obj] at h
      obtain ⟨items, hitems, h⟩ := bind_eq_ok.mp h
      split at h
      · cases h
        exact ⟨text, members, items, htext, hraw, hitems, rfl⟩
      · obtain ⟨-, -, h⟩ := bind_eq_ok.mp h
        cases h
  · rintro ⟨text, members, items, htext, hraw, hitems, hentries⟩
    have hgood : ∀ entry ∈ Dict.ofItems items, WellFormed entry := hentries ▸ psks.wellFormed
    rw [htext, Except.bind, hraw, Except.bind, parseTable_obj, hitems, Except.bind, dif_pos hgood]
    obtain ⟨entries, hwellFormed⟩ := psks
    obtain rfl : Dict.ofItems items = entries := hentries
    rfl

/-- A key that follows the canonical one stands for the same device, and the last such key has
another PSK. -/
def Overridden (limit : ℕ) (bytes : ByteArray) (deviceId psk : List UInt8) : Prop :=
  ∃ text members later psk', decodeText bytes = .ok text ∧
    loadsJson limit text = .ok (.obj members) ∧
      decodeItems (Dict.after members (Text.hex deviceId)) = .ok later ∧
        (Dict.ofItems later).get deviceId = some psk' ∧ psk' ≠ psk

section Registration

variable {limit : ℕ} {members : List (Str × Json)} {items : List (List UInt8 × List UInt8)}
  {deviceId psk : List UInt8}

/-- Members that decode hold nothing but strings of characters. -/
theorem exists_strings (h : decodeItems members = .ok items) :
    ∃ texts, members = Json.strings texts := by
  rw [decodeItems_ok] at h
  induction h with
  | nil => exact ⟨[], rfl⟩
  | cons hmember _ ih =>
    obtain ⟨texts, rfl⟩ := ih
    obtain ⟨hkey, v, hv, hvalue⟩ := hmember
    obtain ⟨key, hkey⟩ := exists_chars_of_fromhex hkey
    obtain ⟨value, rfl⟩ := exists_chars_of_fromhex hvalue
    exact ⟨(key, value) :: texts, by rw [Json.strings_cons, ← hkey, ← hv]⟩

/-- A table that was written is read back. -/
theorem loadTable_tableText (hlimit : 0 < limit) (hdiffer : Dict.KeysDiffer members)
    (hitems : decodeItems members = .ok items)
    (hgood : ∀ entry ∈ Dict.ofItems items, WellFormed entry) :
    loadTable limit (tableText (.obj members)) = .ok ⟨Dict.ofItems items, hgood⟩ := by
  obtain ⟨texts, rfl⟩ := exists_strings hitems
  rw [loadTable_ok]
  refine ⟨_, _, items, decodeText_encodeText _, ?_, hitems, rfl⟩
  rw [loadsJson, Json.loads_dumps_strings hlimit, Dict.ofItems_eq hdiffer]

/-- The parts of a list of members decode one by one. -/
theorem decodeItems_append {before after : List (Str × Json)} :
    decodeItems (before ++ after) = .ok items ↔ ∃ items₁ items₂, decodeItems before = .ok items₁ ∧
      decodeItems after = .ok items₂ ∧ items = items₁ ++ items₂ := by
  simp only [decodeItems_ok]
  refine ⟨fun h => ?_, ?_⟩
  · have htake := List.forall₂_take before.length h
    have hdrop := List.forall₂_drop before.length h
    rw [List.take_left] at htake
    rw [List.drop_left] at hdrop
    exact ⟨_, _, htake, hdrop, (List.take_append_drop ..).symm⟩
  · rintro ⟨items₁, items₂, h₁, h₂, rfl⟩
    exact List.rel_append h₁ h₂

/-- What a table decodes to after an assignment to the canonical key: other devices keep what they
had, and the device has its new PSK unless a later key stands for it too. -/
theorem decodeItems_insert (deviceId psk : List UInt8) (hitems : decodeItems members = .ok items) :
    ∃ items' later,
      decodeItems (Dict.insert members (Text.hex deviceId) (.str (Text.hex psk))) = .ok items' ∧
      decodeItems (Dict.after members (Text.hex deviceId)) = .ok later ∧
      (∀ other, other ≠ deviceId →
        (Dict.ofItems items').get other = (Dict.ofItems items).get other) ∧
      (Dict.ofItems items').get deviceId = ((Dict.ofItems later).get deviceId).or (some psk) ∧
      ∀ psk', (Dict.ofItems later).get deviceId = some psk' →
        (Dict.ofItems items).get deviceId = some psk' := by
  have hnew : DecodesTo (Text.hex deviceId, .str (Text.hex psk)) (deviceId, psk) :=
    ⟨fromhex_hex deviceId, _, rfl, fromhex_hex psk⟩
  obtain ⟨before, hinsert, ⟨rfl, hafter⟩ | ⟨v, hmembers⟩⟩ :=
    Dict.insert_eq members (Text.hex deviceId) (.str (Text.hex psk))
  · -- The key is new.
    rw [hinsert, hafter]
    refine ⟨items ++ [(deviceId, psk)], [], ?_, rfl, fun other hother => ?_, ?_, nofun⟩
    · exact decodeItems_append.mpr ⟨items, _, hitems, decodeItems_ok.mpr (.cons hnew .nil), rfl⟩
    · rw [Dict.get_ofItems_append_cons, if_neg hother.symm]
      rfl
    · rw [Dict.get_ofItems_append_cons, if_pos rfl]
  · -- The key is there: its value is replaced, and a later key may stand for the same device.
    rw [hmembers, decodeItems_append] at hitems
    obtain ⟨items₁, items₂, h₁, h₂, rfl⟩ := hitems
    rw [decodeItems_ok, List.forall₂_cons_left_iff] at h₂
    obtain ⟨⟨key, psk₀⟩, later, ⟨hkey, -⟩, hlater, rfl⟩ := h₂
    obtain rfl : deviceId = key := Option.some.inj ((fromhex_hex deviceId).symm.trans hkey)
    rw [hinsert]
    refine ⟨items₁ ++ (deviceId, psk) :: later, later, ?_, decodeItems_ok.mpr hlater,
      fun other hother => ?_, ?_, fun psk' hpsk' => ?_⟩
    · exact decodeItems_append.mpr ⟨items₁, _, h₁, decodeItems_ok.mpr (.cons hnew hlater), rfl⟩
    · rw [Dict.get_ofItems_append_cons, Dict.get_ofItems_append_cons, if_neg hother.symm,
        if_neg hother.symm]
    · rw [Dict.get_ofItems_append_cons, if_pos rfl]
    · rw [Dict.get_ofItems_append_cons, hpsk', Option.some_or]

/-- The table that a registration writes is a valid one. Only the device changes, and it gets its
PSK unless that is overridden. -/
theorem loadTable_revise {bytes : ByteArray} {psks : Psks} (h : loadTable limit bytes = .ok psks)
    (hid : deviceId.length = deviceIdLen) (hpsk : psk.length = pskLen) :
    ∃ table report psks', revise limit deviceId psk bytes = .ok (table, report) ∧
      loadTable limit (tableText table) = .ok psks' ∧
      (∀ other, other ≠ deviceId → psks'.entries.get other = psks.entries.get other) ∧
      (psks'.entries.get deviceId = some psk ↔ ¬ Overridden limit bytes deviceId psk) := by
  obtain ⟨text, members, items, htext, hmembers, hitems, hentries⟩ := loadTable_ok.mp h
  -- The object has come out of the parser, so that its keys differ.
  have hloads : Json.loads limit text = .ok (.obj members) := by
    rw [loadsJson] at hmembers
    split at hmembers
    · next raw hraw => rwa [Except.ok.inj hmembers] at hraw
    · cases hmembers
    · cases hmembers
  obtain ⟨hlimit, hdiffer⟩ := Json.sound_loads hloads
  obtain ⟨items', later, hitems', hlater, hother, hself, hkept⟩ :=
    decodeItems_insert deviceId psk hitems
  rw [hentries] at hother hkept
  have hgood : ∀ entry ∈ Dict.ofItems items', WellFormed entry := by
    rintro ⟨id, psk'⟩ hmem
    rw [Dict.mem_iff_get (Dict.keysDiffer_ofItems _)] at hmem
    have hold : psks.entries.get id = some psk' → WellFormed (id, psk') := fun hget =>
      psks.wellFormed _ ((Dict.mem_iff_get (hentries ▸ Dict.keysDiffer_ofItems items)).mpr hget)
    -- The entry is the new one or one of the old ones.
    by_cases hdevice : id = deviceId
    · -- The PSK is a later one, which was there before, or the new one.
      subst hdevice
      rw [hself, Option.or_eq_some_iff] at hmem
      rcases hmem with hmem | ⟨-, hmem⟩
      · exact hold (hkept psk' hmem)
      · exact ⟨hid, Option.some.inj hmem ▸ hpsk⟩
    · exact hold (hother id hdevice ▸ hmem)
  obtain ⟨report, hrevise⟩ : ∃ report, revise limit deviceId psk bytes =
      .ok (.obj (Dict.insert members (Text.hex deviceId) (.str (Text.hex psk))), report) := by
    rw [revise, htext, Except.bind, hmembers]
    exact ⟨_, rfl⟩
  refine ⟨_, report, ⟨Dict.ofItems items', hgood⟩, hrevise,
    loadTable_tableText hlimit (hdiffer.insert _ _) hitems' hgood, hother, ?_⟩
  show (Dict.ofItems items').get deviceId = some psk ↔ _
  rw [hself]
  refine ⟨?_, fun hnot => ?_⟩
  · rintro hget ⟨text', members', later', psk', htext', hmembers', hlater', hpsk', hne⟩
    cases htext.symm.trans htext'
    cases hmembers.symm.trans hmembers'
    cases hlater.symm.trans hlater'
    rw [hpsk', Option.some_or] at hget
    exact hne (Option.some.inj hget)
  · cases hget : (Dict.ofItems later).get deviceId with
    | none => rfl
    | some psk' =>
      by_contra hne
      refine hnot ⟨text, members, later, psk', htext, hmembers, hlater, hget, fun heq => hne ?_⟩
      rw [heq, Option.some_or]

end Registration

/-! ## The tables that it writes -/

/-- The members of the object that the tool writes: each device has one key. -/
def members (entries : Dict (List UInt8) (List UInt8)) : List (Str × Json) :=
  entries.map fun entry => (Text.hex entry.1, .str (Text.hex entry.2))

/-- The table with a new PSK for a device. -/
def Psks.assign (psks : Psks) (deviceId psk : List UInt8) (h : WellFormed (deviceId, psk)) : Psks :=
  ⟨psks.entries.insert deviceId psk, Dict.forall_mem_insert psks.wellFormed h⟩

section Tables

variable {limit : ℕ} {entries : Dict (List UInt8) (List UInt8)} {deviceId psk : List UInt8}

/-- Each device has its own key. -/
theorem hex_injective : Function.Injective Text.hex := fun a b h => by
  have hsome := congrArg fromhex h
  rwa [fromhex_hex, fromhex_hex, Option.some.injEq] at hsome

/-- An assignment to the key of a device is one to the device. -/
theorem members_insert (entries : Dict (List UInt8) (List UInt8)) (deviceId psk : List UInt8) :
    members (entries.insert deviceId psk) =
      Dict.insert (members entries) (Text.hex deviceId) (.str (Text.hex psk)) := by
  induction entries with
  | nil => rfl
  | cons entry entries ih =>
    rw [Dict.insert, show members (entry :: entries) =
      (Text.hex entry.1, .str (Text.hex entry.2)) :: members entries from rfl, Dict.insert]
    by_cases h : entry.1 = deviceId
    · rw [if_pos h, if_pos (congrArg Text.hex h)]
      rfl
    · rw [if_neg h, if_neg fun heq => h (hex_injective heq), ← ih]
      rfl

/-- The keys of the object differ as the devices do. -/
theorem keysDiffer_members (h : Dict.KeysDiffer entries) : Dict.KeysDiffer (members entries) := by
  have hkeys : (members entries).map Prod.fst = (entries.map Prod.fst).map Text.hex := by
    simp [members]
  rw [Dict.KeysDiffer, hkeys]
  exact h.map hex_injective

/-- The members decode to the entries. -/
theorem decodeItems_members (entries : Dict (List UInt8) (List UInt8)) :
    decodeItems (members entries) = .ok entries := by
  rw [decodeItems_ok, members, List.forall₂_map_left_iff, List.forall₂_same]
  exact fun entry _ => ⟨fromhex_hex entry.1, _, rfl, fromhex_hex entry.2⟩

/-- The text of the object is parsed to the object. -/
theorem loadsJson_members (hlimit : 0 < limit) (h : Dict.KeysDiffer entries) :
    loadsJson limit ((Json.obj (members entries)).dumps 0 ++ ['\n']) =
      .ok (.obj (members entries)) := by
  have hdiffer := keysDiffer_members h
  obtain ⟨texts, hmembers⟩ := exists_strings (decodeItems_members entries)
  rw [hmembers] at hdiffer ⊢
  rw [loadsJson, Json.loads_dumps_strings hlimit, Dict.ofItems_eq hdiffer]

/-- The table that was written is loaded. -/
theorem loadTable_members (hlimit : 0 < limit) (psks : Psks) (h : Dict.KeysDiffer psks.entries) :
    loadTable limit (tableText (.obj (members psks.entries))) = .ok psks :=
  loadTable_ok.mpr ⟨_, _, _, decodeText_encodeText _, loadsJson_members hlimit h,
    decodeItems_members _, Dict.ofItems_eq h⟩

/-- The new table is one of these, too. -/
theorem revise_members (hlimit : 0 < limit) (h : Dict.KeysDiffer entries)
    (deviceId psk : List UInt8) :
    ∃ report, revise limit deviceId psk (tableText (.obj (members entries))) =
      .ok (.obj (members (entries.insert deviceId psk)), report) := by
  rw [revise, tableText, decodeText_encodeText, Except.bind, loadsJson_members hlimit h,
    members_insert]
  exact ⟨_, rfl⟩

/-- In these tables nothing is overridden. -/
theorem not_overridden_members (hlimit : 0 < limit) (psks : Psks) (h : Dict.KeysDiffer psks.entries)
    (hgood : WellFormed (deviceId, psk)) :
    ¬ Overridden limit (tableText (.obj (members psks.entries))) deviceId psk := by
  obtain ⟨table, report, psks', hrevise, hload, -, hself⟩ :=
    loadTable_revise (loadTable_members hlimit psks h) hgood.1 hgood.2
  obtain ⟨report', hrevise'⟩ := revise_members hlimit h deviceId psk
  cases hrevise.symm.trans hrevise'
  -- The new table is loaded, and the device has its PSK there.
  have hload' := loadTable_members hlimit (psks.assign deviceId psk hgood) (h.insert deviceId psk)
  cases hload.symm.trans hload'
  exact hself.mp (Dict.get_insert_self ..)

end Tables

/-! ## Taking effect -/

section Effect

variable {limit : ℕ} {path : String} {file : Disk} {deviceId psk : List UInt8}

/-- A file that is private is loaded if it holds a valid table. -/
theorem Disk.loaded_of_mode (path : String) (mtime : μ) {bytes : ByteArray}
    (hcontent : file.content = some bytes) (hmode : file.mode &&& 0o777 &&& 0o077 = 0) :
    (file.file mtime).loaded limit path =
      (loadTable limit bytes).map fun psks => (psks, mtime) := by
  obtain ⟨content, mode⟩ := file
  obtain rfl : content = some bytes := hcontent
  show @ite _ _ _ _ _ = _
  rw [if_neg (not_not_intro hmode)]
  dsimp only [Disk.file, Option.map]
  cases loadTable limit bytes <;> rfl

/-- What is loaded from the file on the server. -/
theorem Disk.loaded_ok {mtime mtime' : μ} {psks : Psks} :
    (file.file mtime).loaded limit path = .ok (psks, mtime') ↔ ∃ bytes, file.content = some bytes ∧
      file.mode &&& 0o777 &&& 0o077 = 0 ∧ loadTable limit bytes = .ok psks ∧ mtime = mtime' := by
  obtain ⟨content, mode⟩ := file
  cases content with
  | none =>
    refine iff_of_false nofun ?_
    rintro ⟨bytes, hbytes, -⟩
    cases hbytes
  | some bytes =>
    -- The mode is looked at before the text.
    by_cases hmode : mode &&& 0o777 &&& 0o077 = 0
    · rw [Disk.loaded_of_mode path mtime rfl hmode]
      cases hload : loadTable limit bytes with
      | error e =>
        refine iff_of_false nofun ?_
        rintro ⟨_, hbytes, -, hload', -⟩
        cases hbytes
        cases hload.symm.trans hload'
      | ok psks' =>
        rw [Except.map, Except.ok.injEq, Prod.mk.injEq]
        refine ⟨fun h => ⟨bytes, rfl, hmode, h.1 ▸ hload, h.2⟩, ?_⟩
        rintro ⟨_, hbytes, -, hload', rfl⟩
        cases hbytes
        exact ⟨Except.ok.inj (hload.symm.trans hload'), rfl⟩
    · refine iff_of_false (fun h => ?_) ?_
      · have hrefused := (if_pos hmode).symm.trans h
        cases hrefused
      · rintro ⟨_, _, hok, _⟩
        exact hmode hok

/-- A new table is written. -/
theorem exec_store {bytes : ByteArray} (hcontent : file.content = some bytes) (table : Json)
    (report : List Char) :
    disk.exec file (store (.ok (table, report))) =
      (.ok report, ⟨some (tableText table), 0o600⟩) := by
  obtain ⟨content, mode⟩ := file
  obtain rfl : content = some bytes := hcontent
  show (_, (⟨some (overwrite .empty (tableText table)), 0o600⟩ : Disk)) = _
  rw [overwrite_empty]

/-- On a valid table the program succeeds. -/
theorem exec_remoteProgram {bytes : ByteArray} {table : Json} {report : List Char}
    (hcontent : file.content = some bytes)
    (hrevise : revise limit deviceId psk bytes = .ok (table, report)) :
    disk.exec file (remoteProgram limit (registration deviceId psk)).run =
      (.ok report, ⟨some (tableText table), 0o600⟩) := by
  rw [run_remoteProgram, Store.exec_op]
  have hfound : disk.answer file .pathExists = true := congrArg Option.isSome hcontent
  have hread : disk.answer file .readText = some bytes := hcontent
  rw [hfound, if_pos rfl, Store.exec_op]
  show disk.exec file (match disk.answer file .readText with
    | none => .ret (.error .osError)
    | some bytes => store (revise limit deviceId psk bytes)) = _
  rw [hread]
  show disk.exec file (store (revise limit deviceId psk bytes)) = _
  rw [hrevise, exec_store hcontent]

/-- A file is accepted exactly if it is private and holds a valid table. -/
theorem Disk.exec_reload_ok {mtime : μ} {table₀ table : DeviceTable μ} :
    (file.file mtime).exec (reload limit path) table₀ = (.ok (), table) ↔
      ∃ bytes, file.content = some bytes ∧ file.mode &&& 0o777 &&& 0o077 = 0 ∧
        loadTable limit bytes = .ok table.psks ∧ table.mtime = some mtime := by
  rw [FileState.exec_reload]
  constructor
  · intro h
    split at h
    · next psks mtime' hloaded =>
      obtain ⟨bytes, hcontent, hmode, hload, rfl⟩ := Disk.loaded_ok.mp hloaded
      cases h
      exact ⟨bytes, hcontent, hmode, hload, rfl⟩
    · cases h
  · rintro ⟨bytes, hcontent, hmode, hload, hmtime⟩
    obtain ⟨psks, _⟩ := table
    obtain rfl := hmtime
    rw [Disk.loaded_ok.mpr ⟨bytes, hcontent, hmode, hload, rfl⟩]

variable [DecidableEq μ]

/-- A file that was loaded already is not loaded again. -/
theorem Disk.exec_pskFor {mtime : μ} {table : DeviceTable μ} (id : List UInt8)
    (h : table.mtime = some mtime) :
    (file.file mtime).exec (pskFor limit path id) table = (.ok (table.get id), table) := by
  have hrefreshed : (file.file mtime).refreshed table limit path = .ok table := by
    rw [FileState.refreshed]
    split
    · rfl
    · next stat hstat =>
      obtain ⟨_, -, rfl⟩ := Option.map_eq_some_iff.mp hstat
      exact if_pos h.symm
  rw [FileState.exec_pskFor, hrefreshed]

/-- When a registration takes effect. For every file that the server accepts, every device id and
PSK: the program succeeds; and a reload accepts the new file, gives the device its PSK and every
other id what it had, exactly if no later key for the same device overrides the new entry. -/
theorem remoteProgram_registers_iff {mtime : μ} {table₀ table : DeviceTable μ}
    (haccept : (file.file mtime).exec (reload limit path) table₀ = (.ok (), table)) (mtime' : μ)
    (hid : deviceId.length = deviceIdLen) (hpsk : psk.length = pskLen) :
    ∃ report file', disk.exec file (remoteProgram limit (registration deviceId psk)).run =
        (.ok report, file') ∧
      ((∃ table', (file'.file mtime').exec (reload limit path) table = (.ok (), table') ∧
          ((file'.file mtime').exec (pskFor limit path deviceId) table').1 = .ok (some psk) ∧
          ∀ other, other ≠ deviceId →
            ((file'.file mtime').exec (pskFor limit path other) table').1 =
              .ok (table.get other)) ↔
        ¬ ∃ bytes, file.content = some bytes ∧ Overridden limit bytes deviceId psk) := by
  obtain ⟨bytes, hcontent, -, hload, -⟩ := Disk.exec_reload_ok.mp haccept
  obtain ⟨json, report, psks', hrevise, hload', hother, hself⟩ := loadTable_revise hload hid hpsk
  refine ⟨report, _, exec_remoteProgram hcontent hrevise, ?_⟩
  -- The file that is written is loaded again, whatever the server had in memory.
  have hreload : ∀ table' : DeviceTable μ,
      ((⟨some (tableText json), 0o600⟩ : Disk).file mtime').exec (reload limit path) table =
        (.ok (), table') ↔ table' = ⟨psks', some mtime'⟩ := by
    intro table'
    rw [Disk.exec_reload_ok]
    constructor
    · rintro ⟨_, hbytes, -, h, hmtime⟩
      cases hbytes
      obtain ⟨psks, _⟩ := table'
      obtain rfl := hmtime
      rw [Except.ok.inj (hload'.symm.trans h)]
    · rintro rfl
      exact ⟨_, rfl, (by decide : 0o600 &&& 0o777 &&& 0o077 = 0), hload', rfl⟩
  have hpskFor : ∀ id, (((⟨some (tableText json), 0o600⟩ : Disk).file mtime').exec
      (pskFor limit path id) ⟨psks', some mtime'⟩).1 = .ok (psks'.entries.get id) := fun id =>
    congrArg Prod.fst (Disk.exec_pskFor id rfl)
  simp only [hreload, exists_eq_left, hpskFor, hcontent, Option.some.injEq, exists_eq_left']
  rw [Except.ok.injEq, hself]
  exact and_iff_left fun other hne => congrArg Except.ok (hother other hne)

end Effect

/-- A device that has a PSK already and stands between two others. It gets its new one, and the
others keep theirs. -/
theorem remoteProgram_registers_between :
    let device (n : UInt8) : List UInt8 := n :: List.replicate 7 0
    let psks : Psks := ⟨[(device 9, List.replicate 32 0x11), (device 10, List.replicate 32 0x22),
      (device 11, List.replicate 32 0x33)], by decide⟩
    let file : Disk := ⟨some (tableText (.obj (members psks.entries))), 0o600⟩
    ∃ report file' table',
      (file.file 0).exec (reload 1000 "devices.json") .empty = (.ok (), ⟨psks, some 0⟩) ∧
      disk.exec file (remoteProgram 1000
        (registration (device 10) (List.replicate 32 0xab))).run = (.ok report, file') ∧
      (file'.file 1).exec (reload 1000 "devices.json") ⟨psks, some 0⟩ = (.ok (), table') ∧
      ((file'.file 1).exec (pskFor 1000 "devices.json" (device 9)) table').1 =
        .ok (some (List.replicate 32 0x11)) ∧
      ((file'.file 1).exec (pskFor 1000 "devices.json" (device 10)) table').1 =
        .ok (some (List.replicate 32 0xab)) ∧
      ((file'.file 1).exec (pskFor 1000 "devices.json" (device 11)) table').1 =
        .ok (some (List.replicate 32 0x33)) := by
  intro device psks file
  have hdiffer : Dict.KeysDiffer psks.entries := by
    show ([device 9, device 10, device 11] : List (List UInt8)).Nodup
    decide
  -- The table that the tool writes is one that the server loads.
  have haccept : (file.file 0).exec (reload 1000 "devices.json") .empty =
      (.ok (), ⟨psks, some 0⟩) :=
    Disk.exec_reload_ok.mpr ⟨_, rfl, (by decide : 0o600 &&& 0o777 &&& 0o077 = 0),
      loadTable_members (by decide) psks hdiffer, rfl⟩
  obtain ⟨report, file', hexec, hiff⟩ := remoteProgram_registers_iff haccept 1
    (rfl : (device 10).length = deviceIdLen)
    (rfl : (List.replicate 32 (0xab : UInt8)).length = pskLen)
  -- No other key of the file is the device in another spelling.
  obtain ⟨table', hreload, hpsk, hother⟩ := hiff.mpr (by
    rintro ⟨bytes, hbytes, hover⟩
    obtain rfl : tableText (.obj (members psks.entries)) = bytes := Option.some.inj hbytes
    exact not_overridden_members (by decide) psks hdiffer ⟨rfl, rfl⟩ hover)
  exact ⟨report, file', table', haccept, hexec, hreload, hother (device 9) (by decide), hpsk,
    hother (device 11) (by decide)⟩

/-- A registration without effect: the device is in the table in upper case too, further down. -/
theorem registration_overridden :
    let deviceId : List UInt8 := 10 :: List.replicate 7 0
    let upper : List Char := '0' :: 'A' :: hexChars (List.replicate 7 0)
    let old : List UInt8 := List.replicate 32 0
    let psk : List UInt8 := List.replicate 32 0xab
    let file : Disk := ⟨some (tableText (.obj (Json.strings
      [(hexChars deviceId, hexChars old), (upper, hexChars old)]))), 0o600⟩
    ∃ table report file' table',
      (file.file 0).exec (reload 1000 "devices.json") .empty = (.ok (), table) ∧
      disk.exec file (remoteProgram 1000 (registration deviceId psk)).run = (.ok report, file') ∧
      (file'.file 1).exec (reload 1000 "devices.json") table = (.ok (), table') ∧
      ((file'.file 1).exec (pskFor 1000 "devices.json" deviceId) table').1 = .ok (some old) := by
  intro deviceId upper old psk file
  -- Whatever the first key has, the second one decides.
  let members (first : List UInt8) : List (Str × Json) :=
    Json.strings [(hexChars deviceId, hexChars first), (upper, hexChars old)]
  let psks : Psks := ⟨[(deviceId, old)], by decide⟩
  have hupper : fromhex (ofChars upper) = some deviceId := by
    refine (fromhex_pair (by decide)).trans ?_
    rw [show fromhex (List.map .char (hexChars (List.replicate 7 0))) = _ from
      fromhex_hex (List.replicate 7 0)]
    rfl
  have hitems : ∀ first, decodeItems (members first) = .ok [(deviceId, first), (deviceId, old)] :=
    fun first => decodeItems_ok.mpr (.cons ⟨fromhex_hex deviceId, _, rfl, fromhex_hex first⟩
      (.cons ⟨hupper, _, rfl, fromhex_hex old⟩ .nil))
  have hdiffer : ∀ first, Dict.KeysDiffer (members first) := by
    intro first
    have hne : ofChars (hexChars deviceId) ≠ ofChars upper := fun h => by
      have hchar := congrArg (fun s : Str => s[1]?) h
      cases hchar
    exact List.nodup_cons.mpr ⟨fun hmem => hne (List.mem_singleton.mp hmem), List.nodup_singleton _⟩
  have hload : ∀ first, loadTable 1000 (tableText (.obj (members first))) = .ok psks := fun first =>
    loadTable_tableText (by decide) (hdiffer first) (hitems first) psks.wellFormed
  obtain ⟨report, hrevise⟩ : ∃ report, revise 1000 deviceId psk (tableText (.obj (members old))) =
      .ok (.obj (members psk), report) := by
    have hinsert : Dict.insert (members old) (ofChars (hexChars deviceId))
        (.str (ofChars (hexChars psk))) = members psk := if_pos rfl
    rw [revise, tableText, decodeText_encodeText, Except.bind, loadsJson,
      Json.loads_dumps_strings (by decide), Dict.ofItems_eq (hdiffer old)]
    show ∃ report, assign (hexChars deviceId) (hexChars psk) (.obj (members old)) = _
    simp only [assign, hinsert]
    exact ⟨_, rfl⟩
  have hmode : 0o600 &&& 0o777 &&& 0o077 = 0 := by decide
  refine ⟨⟨psks, some 0⟩, report, ⟨some (tableText (.obj (members psk))), 0o600⟩, ⟨psks, some 1⟩,
    Disk.exec_reload_ok.mpr ⟨_, rfl, hmode, hload old, rfl⟩,
    exec_remoteProgram rfl hrevise,
    Disk.exec_reload_ok.mpr ⟨_, rfl, hmode, hload psk, rfl⟩, ?_⟩
  exact congrArg Prod.fst (Disk.exec_pskFor deviceId rfl)

end Devices

end PqcIot
