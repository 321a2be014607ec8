import PqcIot.Text.Arrays
import PqcIot.Text.Dict

/-!
# The header with the test vectors

`tests/acvp/generate_kat_header.py` turns ACVP documents into a C header: `collect` joins the
prompts and the expected results by `tcId`, and `main` prints the rows of each parameter set and
function.
-/

namespace PqcIot.KatHeader

open Text Text.C

/-! ## Documents -/

section Documents

variable (τ : Type)

/-- A test of a document. -/
structure AcvpTest where
  tcId : τ
  /-- The fields that are strings. -/
  fields : Dict String Str
  testPassed : Option Bool

/-- A group of prompts. -/
structure TestGroup where
  parameterSet : String
  function : Option String
  tests : List (AcvpTest τ)

/-- The prompts and the expected results of an algorithm. -/
structure DocumentPair where
  prompt : List (TestGroup τ)
  /-- The tests of each group. -/
  expected : List (List (AcvpTest τ))
  nodup_prompt : ((prompt.flatMap TestGroup.tests).map AcvpTest.tcId).Nodup
  nodup_expected : (expected.flatten.map AcvpTest.tcId).Nodup

/-- The documents that are read. -/
structure Documents where
  /-- ML-KEM-keyGen-FIPS203. -/
  keygen : DocumentPair τ
  /-- ML-KEM-encapDecap-FIPS203. -/
  encapDecap : DocumentPair τ

end Documents

/-- The parameter sets of the header. -/
inductive Level where
  | mlkem512
  | mlkem768
  deriving DecidableEq

/-- The number in the name of a parameter set. -/
def Level.number : Level → ℕ
  | .mlkem512 => 512
  | .mlkem768 => 768

/-- `LEVELS`. -/
def levelNames : Dict String Level := [("ML-KEM-512", .mlkem512), ("ML-KEM-768", .mlkem768)]

/-- The functions of the header. -/
inductive KatFunction where
  | keygen
  | encap
  | decap
  | ekCheck
  | dkCheck
  deriving DecidableEq

/-- The values of `function` in the second pair of documents. -/
def functionNames : Dict String KatFunction :=
  [("encapsulation", .encap), ("decapsulation", .decap), ("encapsulationKeyCheck", .ekCheck),
    ("decapsulationKeyCheck", .dkCheck)]

/-- The document that a field comes from. -/
inductive Source where
  | prompt
  | expected

/-- A column of a table: its name, and the field that it is read from. -/
structure Column where
  name : String
  source : Source
  key : String

namespace KatFunction

/-- The columns of bytes. -/
def columns : KatFunction → List Column
  | .keygen => [⟨"d", .prompt, "d"⟩, ⟨"z", .prompt, "z"⟩, ⟨"ek", .expected, "ek"⟩,
      ⟨"dk", .expected, "dk"⟩]
  | .encap => [⟨"ek", .prompt, "ek"⟩, ⟨"m", .prompt, "m"⟩, ⟨"c", .expected, "c"⟩,
    ⟨"k", .expected, "k"⟩]
  | .decap => [⟨"dk", .prompt, "dk"⟩, ⟨"c", .prompt, "c"⟩, ⟨"k", .expected, "k"⟩]
  | .ekCheck => [⟨"key", .prompt, "ek"⟩]
  | .dkCheck => [⟨"key", .prompt, "dk"⟩]

/-- Whether the rows have a verdict. -/
def hasVerdict : KatFunction → Bool
  | .keygen | .encap | .decap => false
  | .ekCheck | .dkCheck => true

end KatFunction

/-! ## Collecting the rows -/

/-- The exceptions of the script. -/
inductive KatExn where
  | keyError
  /-- What `bytes.fromhex` raises. -/
  | fromhexError
  | valueError (message : List Char)
  deriving DecidableEq

/-- A row, with its columns by name. -/
structure Row where
  bytes : Dict String (List UInt8)
  valid : Option Bool

/-- `d[key]`. -/
def lookup {κ α : Type} [DecidableEq κ] (d : Dict κ α) (key : κ) : Except KatExn α :=
  match d.get key with
  | some a => .ok a
  | none => .error .keyError

/-- The rows of each parameter set and function, where a group has set them. -/
abbrev Data : Type := Level → KatFunction → Option (List Row)

/-- `data[lvl][key] = rows`. -/
def Data.set (data : Data) (lvl : Level) (f : KatFunction) (rows : List Row) : Data :=
  Function.update data lvl (Function.update (data lvl) f (some rows))

/-- `tests[:limit] if limit else tests`. -/
def limited {α : Type} (limit : Option ℤ) (tests : List α) : List α :=
  match limit with
  | none => tests
  | some n =>
    if n = 0 then tests
    -- The end of a slice may be counted from the end of the list.
    else if n < 0 then tests.take (tests.length + n).toNat
    else tests.take n.toNat

section Collect

variable {τ : Type} [DecidableEq τ] (limit : Option ℤ)

/-- The index of the expected results that `load_pair` returns. -/
def DocumentPair.byTc (pair : DocumentPair τ) : Dict τ (AcvpTest τ) :=
  Dict.ofItems (pair.expected.flatten.map fun test => (test.tcId, test))

variable (expected : Dict τ (AcvpTest τ))

/-- The test that a column is read from: the prompt, or the expected result of the same `tcId`. -/
def sourceTest (t : AcvpTest τ) : Source → Except KatExn (AcvpTest τ)
  | .prompt => .ok t
  | .expected => lookup expected t.tcId

/-- `bytes.fromhex` of a field. -/
def cell (t : AcvpTest τ) (column : Column) : Except KatExn (List UInt8) := do
  let source ← sourceTest expected t column.source
  let digits ← lookup source.fields column.key
  match fromhex digits with
  | some bytes => return bytes
  | none => throw .fromhexError

/-- `bool(expected[t["tcId"]]["testPassed"])`. -/
def verdict (t : AcvpTest τ) : Except KatExn Bool := do
  let source ← sourceTest expected t .expected
  match source.testPassed with
  | some passed => return passed
  | none => throw .keyError

/-- The column `valid` of a row, where the function has it. -/
def validCell (f : KatFunction) (t : AcvpTest τ) : Except KatExn (Option Bool) :=
  if f.hasVerdict then some <$> verdict expected t else pure none

/-- The row of a test. -/
def row (f : KatFunction) (t : AcvpTest τ) : Except KatExn Row := do
  let bytes ← f.columns.mapM fun column => Prod.mk column.name <$> cell expected t column
  let valid ← validCell expected f t
  return ⟨bytes, valid⟩

/-- One turn of a loop of `collect`. -/
def collectGroup (function : TestGroup τ → Option KatFunction) (data : Data) (group : TestGroup τ) :
    Except KatExn Data :=
  match levelNames.get group.parameterSet, function group with
  | some lvl, some f => do
    let rows ← (limited limit group.tests).mapM (row expected f)
    -- A later group of this parameter set and function replaces the rows of an earlier one.
    return data.set lvl f rows
  -- Groups of another parameter set or function are skipped.
  | _, _ => .ok data

/-- `collect`. -/
def collect (docs : Documents τ) : Except KatExn Data := do
  let data ← docs.keygen.prompt.foldlM
    (collectGroup limit docs.keygen.byTc fun _ => some .keygen) fun _ _ => none
  docs.encapDecap.prompt.foldlM
    (collectGroup limit docs.encapDecap.byTc fun group =>
      group.function.bind functionNames.get) data

end Collect

/-! ## Printing the tables -/

/-- A decimal number. -/
def decimal (n : ℕ) : List Char := Nat.toDigits 10 n

/-- `c_flags`. -/
def cFlags (name : List Char) (flags : List Bool) : List Char :=
  if flags = [] then []
  else
    let body := flags.flatMap fun f => decimal f.toNat ++ [',']
    "static const uint8_t ".toList ++ name ++ '[' :: decimal flags.length ++ "] = \x7b".toList ++
      body ++ "\x7d;\n".toList

/-- `f"0x{b:02x}"`. -/
def byteText (b : UInt8) : List Char := '0' :: 'x' :: hexChars [b]

/-- The lines of a row, of sixteen bytes each. -/
def rowBody (width : ℕ) (bytes : List UInt8) : List (List Char) :=
  (List.range' 0 ((width + 15) / 16) 16).map fun i =>
    "    ".toList ++ ((bytes.drop i).take 16).flatMap fun b => byteText b ++ [',']

/-- A row. -/
def rowText (width : ℕ) (bytes : List UInt8) : List Char :=
  "  \x7b\n".toList ++ ['\n'].intercalate (rowBody width bytes) ++ "\n  \x7d,".toList

/-- `c_array`. -/
def cArray (name : List Char) (rows : List (List UInt8)) : Except KatExn (List Char) :=
  match rows with
  | [] => .ok []
  | first :: _ =>
    let width := first.length
    if rows.any fun r => r.length != width then
      .error (.valueError (name ++ ": inconsistent row lengths".toList))
    else
      let out := "static const uint8_t ".toList ++ name ++
        '[' :: decimal rows.length ++ "][".toList ++
        decimal width ++ "] = \x7b".toList
      .ok (['\n'].intercalate (out :: rows.map (rowText width) ++ ["\x7d;\n".toList]))

/-- `f"KAT{lvl}_{tag}_COUNT"`. -/
def countName (lvl : Level) (f : KatFunction) : List Char :=
  let tag := match f with
    | .keygen => "KEYGEN"
    | .encap => "ENCAP"
    | .decap => "DECAP"
    | .ekCheck => "EKCHECK"
    | .dkCheck => "DKCHECK"
  "KAT".toList ++ decimal lvl.number ++ '_' :: tag.toList ++ "_COUNT".toList

/-- `f"kat{lvl}_{key}_{column}"`, where the key is without its underscore. -/
def arrayName (lvl : Level) (f : KatFunction) (column : String) : List Char :=
  let key := match f with
    | .keygen => "keygen"
    | .encap => "encap"
    | .decap => "decap"
    | .ekCheck => "ekcheck"
    | .dkCheck => "dkcheck"
  "kat".toList ++ decimal lvl.number ++ '_' :: key.toList ++ '_' :: column.toList

/-- A column of the rows. -/
def columnOf (rows : List Row) (name : String) : Except KatExn (List (List UInt8)) :=
  rows.mapM fun r => lookup r.bytes name

/-- The verdicts of the rows. -/
def verdictsOf (rows : List Row) : Except KatExn (List Bool) :=
  rows.mapM fun r => match r.valid with
    | some valid => .ok valid
    | none => .error .keyError

/-- The line of the column `valid`, where the function has it. -/
def flagLines (lvl : Level) (f : KatFunction) (rows : List Row) :
    Except KatExn (List (List Char)) :=
  if f.hasVerdict then do
    let valid ← verdictsOf rows
    return [cFlags (arrayName lvl f "valid") valid]
  else pure []

/-- The lines of a function. -/
def functionLines (lvl : Level) (f : KatFunction) (rows : List Row) :
    Except KatExn (List (List Char)) := do
  let count := "#define ".toList ++ countName lvl f ++ ' ' :: decimal rows.length
  let arrays ← f.columns.mapM fun column => do
    let values ← columnOf rows column.name
    cArray (arrayName lvl f column.name) values
  let flags ← flagLines lvl f rows
  return count :: (arrays ++ flags)

/-- `sorted(data)`. -/
def levels : List Level := [.mlkem512, .mlkem768]

/-- The functions, in the order of the header. -/
def functions : List KatFunction := [.keygen, .encap, .decap, .ekCheck, .dkCheck]

/-- The lines of a parameter set. -/
def levelLines (data : Data) (lvl : Level) : Except KatExn (List (List Char)) := do
  let lines ← functions.mapM fun f => match data lvl f with
    | some rows => functionLines lvl f rows
    -- No group has set the rows of this function.
    | none => pure []
  return ("/* ---------- ML-KEM-".toList ++ decimal lvl.number ++ " ---------- */".toList) :: [] ::
    lines.flatten

/-! ## The header -/

/-- A JSON file under `--acvp-dir`. -/
structure InputFile where
  /-- Its path within the directory. -/
  path : List Char
  sha256 : List UInt8
  /-- The path does not end the comment that it is listed in. -/
  asterisk_not_mem : '*' ∉ path

/-- What the header mentions beside the vectors. -/
structure Provenance where
  /-- `--acvp-version`. -/
  version : List Char
  /-- The input files, in their order. -/
  inputs : List InputFile
  /-- The version does not end the comment or the string that it stands in. -/
  version_plain : ∀ c ∈ version, c ≠ '*' ∧ c ≠ '"' ∧ c ≠ '\\' ∧ c ≠ '\n'

/-- The lines of the comment at the beginning, behind their asterisks. -/
def commentLines (source : Provenance) : List (List Char) :=
  [" NIST ACVP test vectors for ML-KEM (FIPS 203).", "", " GENERATED FILE - do not edit by hand.",
    " Regenerate with tests/acvp/generate_kat_header.py.", ""].map String.toList ++
  [" Source: usnistgov/ACVP-Server ".toList ++ source.version] ++
  ["         gen-val/json-files/ML-KEM-\x7bkeyGen,encapDecap\x7d-FIPS203", "",
    " Input files and their SHA-256:"].map String.toList ++
  source.inputs.flatMap fun file =>
    ["   ".toList ++ file.path, "     ".toList ++ hexChars file.sha256]

/-- The include guard at the beginning. -/
def guardLines : List (List Char) :=
  ["", "#ifndef ACVP_VECTORS_H", "#define ACVP_VECTORS_H", "", "#include <stdint.h>", ""].map
    String.toList

/-- The lines before the vectors. -/
def preamble (source : Provenance) : List (List Char) :=
  ['/', '*'] :: (commentLines source).map commentLine ++ [[' ', '*', '/']] ++ guardLines ++
    ["#define ACVP_VERSION \"".toList ++ source.version ++ ['"'], []]

/-- `main`: the text that it writes to `--out`, if there are input files. -/
def main {τ : Type} [DecidableEq τ] (docs : Documents τ) (source : Provenance) (limit : Option ℤ) :
    Except KatExn (Option (List Char)) :=
  if source.inputs.isEmpty then
    pure none
  else do
    let data ← collect limit docs
    let lines ← levels.mapM (levelLines data)
    return some (['\n'].intercalate (preamble source ++ lines.flatten ++
      ["#endif /* ACVP_VECTORS_H */".toList, []]))

end PqcIot.KatHeader
