import PqcIot.Text.Dict
import PqcIot.Text.Hex

/-!
# JSON

`json.loads` and `json.dumps` of Python. Loading is a scan over the characters: its state is the
stack of the containers that are open and what is expected next, so that it always comes to an end.
Nesting deeper than the interpreter's recursion limit raises `RecursionError`, everything else that
is not JSON `ValueError`.
-/

namespace Text

/-- A JSON value. A number is kept as it is written. -/
inductive Json where
  | null
  | bool (b : Bool)
  | num (literal : List Char)
  | str (s : Str)
  | arr (items : List Json)
  | obj (members : List (Str × Json))

namespace Json

/-! ## Loading -/

/-- What `json.loads` raises. -/
inductive LoadError where
  /-- `JSONDecodeError`, or another `ValueError`. -/
  | value
  | recursion
  deriving DecidableEq, Repr

/-- A container that is open: an array with its items so far, or an object with its members so far
and the key whose value comes next. -/
inductive Frame where
  | array (items : List Json)
  | object (members : List (Str × Json)) (key : Str)

/-- What is expected next. -/
inductive Mode where
  | value
  | arrayStart
  | objectStart
  | key
  | colon
  /-- A delimiter after an item or a member. -/
  | after
  | string (text : Str) (isKey : Bool)
  | escape (text : Str) (isKey : Bool)
  /-- The digits of a `\u` escape: how many have been read, and their value. -/
  | unit (text : Str) (isKey : Bool) (digits value : ℕ)
  | number (text : List Char)
  /-- The rest of a constant. -/
  | constant (rest : List Char) (v : Json)
  /-- Nothing but white space. -/
  | done (v : Json)

/-- The state of a scan. -/
structure Scanner where
  stack : List Frame
  mode : Mode

/-- White space between tokens. -/
def isBlank (c : Char) : Bool := c = ' ' || c = '\t' || c = '\n' || c = '\r'

/-- A value is complete. -/
def complete (v : Json) : List Frame → Scanner
  | [] => ⟨[], .done v⟩
  | .array items :: stack => ⟨.array (items ++ [v]) :: stack, .after⟩
  | .object members key :: stack => ⟨.object (Dict.insert members key v) [] :: stack, .after⟩

/-- A string is complete. -/
def endString (text : Str) (isKey : Bool) (stack : List Frame) : Scanner :=
  match isKey, stack with
  | true, .object members _ :: stack => ⟨.object members text :: stack, .colon⟩
  | _, stack => complete (.str text) stack

/-- Characters that a number may be made of. -/
def isNumberChar (c : Char) : Bool :=
  c.isDigit || c = '-' || c = '+' || c = '.' || c = 'e' || c = 'E'

/-- An exponent with its sign, or nothing. -/
def validExponent : List Char → Bool
  | [] => true
  | e :: text =>
    let digits := match text with
      | '-' :: digits | '+' :: digits => digits
      | digits => digits
    (e = 'e' || e = 'E') && !digits.isEmpty && digits.all Char.isDigit

/-- Whether the text is a number, of no more digits than an `int` may be converted from. -/
def validNumber (text : List Char) : Bool :=
  let text := match text with
    | '-' :: text => text
    | text => text
  let whole := text.takeWhile Char.isDigit
  let rest := text.dropWhile Char.isDigit
  (whole = ['0'] || (!whole.isEmpty && whole.head? ≠ some '0')) &&
    match rest with
    | [] => whole.length ≤ 4300
    | '.' :: rest =>
      !(rest.takeWhile Char.isDigit).isEmpty && validExponent (rest.dropWhile Char.isDigit)
    | rest => validExponent rest

/-- Append a UTF-16 code unit. The second half of a surrogate pair joins the first. -/
def pushUnit (text : Str) (unit : ℕ) : Str :=
  if h : 0xD800 ≤ unit ∧ unit < 0xE000 then
    match text.getLast? with
    | some (.surrogate high) =>
      if high.1 < 0x400 ∧ 0xDC00 ≤ unit then
        text.dropLast ++ [.char (Char.ofNat (0x10000 + high.1 * 0x400 + (unit - 0xDC00)))]
      else
        text ++ [.surrogate ⟨unit - 0xD800, by omega⟩]
    | _ => text ++ [.surrogate ⟨unit - 0xD800, by omega⟩]
  else
    text ++ [.char (Char.ofNat unit)]

/-- The first character of a value. `limit` is the recursion limit. -/
def startValue (limit : ℕ) (stack : List Frame) (c : Char) : Except LoadError Scanner :=
  if c = '"' then .ok ⟨stack, .string [] false⟩
  else if c = '[' then
    if stack.length < limit then .ok ⟨.array [] :: stack, .arrayStart⟩ else .error .recursion
  else if c = '{' then
    if stack.length < limit then .ok ⟨.object [] [] :: stack, .objectStart⟩ else .error .recursion
  else if c = 'n' then .ok ⟨stack, .constant "ull".toList .null⟩
  else if c = 't' then .ok ⟨stack, .constant "rue".toList (.bool true)⟩
  else if c = 'f' then .ok ⟨stack, .constant "alse".toList (.bool false)⟩
  else if c = 'N' then .ok ⟨stack, .constant "aN".toList (.num "NaN".toList)⟩
  else if c = 'I' then .ok ⟨stack, .constant "nfinity".toList (.num "Infinity".toList)⟩
  else if c = '-' || c.isDigit then .ok ⟨stack, .number [c]⟩
  else .error .value

/-- A delimiter after a value. -/
def delimit (s : Scanner) (c : Char) : Except LoadError Scanner :=
  if isBlank c then .ok s
  else
    match s with
    | ⟨.array items :: stack, .after⟩ =>
      if c = ',' then .ok ⟨.array items :: stack, .value⟩
      else if c = ']' then .ok (complete (.arr items) stack)
      else .error .value
    | ⟨.object members key :: stack, .after⟩ =>
      if c = ',' then .ok ⟨.object members key :: stack, .key⟩
      else if c = '}' then .ok (complete (.obj members) stack)
      else .error .value
    | _ => .error .value

/-- The character after the backslash. -/
def unescape (stack : List Frame) (text : Str) (isKey : Bool) (c : Char) :
    Except LoadError Scanner :=
  if c = '"' || c = '\\' || c = '/' then .ok ⟨stack, .string (text ++ [.char c]) isKey⟩
  else if c = 'b' then .ok ⟨stack, .string (text ++ [.char '\x08']) isKey⟩
  else if c = 'f' then .ok ⟨stack, .string (text ++ [.char '\x0c']) isKey⟩
  else if c = 'n' then .ok ⟨stack, .string (text ++ [.char '\n']) isKey⟩
  else if c = 'r' then .ok ⟨stack, .string (text ++ [.char '\r']) isKey⟩
  else if c = 't' then .ok ⟨stack, .string (text ++ [.char '\t']) isKey⟩
  else if c = 'u' then .ok ⟨stack, .unit text isKey 0 0⟩
  else .error .value

/-- One character. -/
def step (limit : ℕ) (s : Scanner) (c : Char) : Except LoadError Scanner :=
  match s.mode with
  | .value => if isBlank c then .ok s else startValue limit s.stack c
  | .arrayStart =>
    if isBlank c then .ok s
    else if c = ']' then .ok (complete (.arr []) s.stack.tail)
    else startValue limit s.stack c
  | .objectStart =>
    if isBlank c then .ok s
    else if c = '}' then .ok (complete (.obj []) s.stack.tail)
    else if c = '"' then .ok ⟨s.stack, .string [] true⟩
    else .error .value
  | .key =>
    if isBlank c then .ok s
    else if c = '"' then .ok ⟨s.stack, .string [] true⟩
    else .error .value
  | .colon =>
    if isBlank c then .ok s
    else if c = ':' then .ok ⟨s.stack, .value⟩
    else .error .value
  | .after | .done _ => delimit s c
  | .string text isKey =>
    if c = '"' then .ok (endString text isKey s.stack)
    else if c = '\\' then .ok ⟨s.stack, .escape text isKey⟩
    else if c.toNat < 0x20 then .error .value
    else .ok ⟨s.stack, .string (text ++ [.char c]) isKey⟩
  | .escape text isKey => unescape s.stack text isKey c
  | .unit text isKey digits value =>
    match digitValue c with
    | none => .error .value
    | some d =>
      if digits = 3 then .ok ⟨s.stack, .string (pushUnit text (16 * value + d)) isKey⟩
      else .ok ⟨s.stack, .unit text isKey (digits + 1) (16 * value + d)⟩
  | .number text =>
    if isNumberChar c then .ok ⟨s.stack, .number (text ++ [c])⟩
    else if text = ['-'] ∧ c = 'I' then
      .ok ⟨s.stack, .constant "nfinity".toList (.num "-Infinity".toList)⟩
    else if validNumber text then delimit (complete (.num text) s.stack) c
    else .error .value
  | .constant rest v =>
    match rest with
    | [] => .error .value
    | r :: rest =>
      if c ≠ r then .error .value
      else if rest.isEmpty then .ok (complete v s.stack)
      else .ok ⟨s.stack, .constant rest v⟩

/-- The end of the text. -/
def finish : Scanner → Except LoadError Json
  | ⟨_, .done v⟩ => .ok v
  | ⟨[], .number text⟩ => if validNumber text then .ok (.num text) else .error .value
  | _ => .error .value

/-- Scan some characters. -/
def scan (limit : ℕ) : Scanner → List Char → Except LoadError Scanner
  | s, [] => .ok s
  | s, c :: text => (step limit s c).bind fun s => scan limit s text

/-- `json.loads`. -/
def loads (limit : ℕ) (text : List Char) : Except LoadError Json :=
  (scan limit ⟨[], .value⟩ text).bind finish

/-! ## Dumping -/

/-- `\uXXXX`. -/
def escapeUnit (n : ℕ) : List Char :=
  ['\\', 'u', digitChar (n / 4096), digitChar (n / 256 % 16), digitChar (n / 16 % 16),
    digitChar (n % 16)]

/-- A character in a string, in ASCII. -/
def escapeChar (c : Char) : List Char :=
  if c = '"' then ['\\', '"']
  else if c = '\\' then ['\\', '\\']
  else if c = '\n' then ['\\', 'n']
  else if c = '\r' then ['\\', 'r']
  else if c = '\t' then ['\\', 't']
  else if c = '\x0c' then ['\\', 'f']
  else if c = '\x08' then ['\\', 'b']
  else if ' ' ≤ c ∧ c ≤ '~' then [c]
  else if c.toNat < 0x10000 then escapeUnit c.toNat
  else
    escapeUnit (0xD800 + (c.toNat - 0x10000) / 0x400) ++
      escapeUnit (0xDC00 + (c.toNat - 0x10000) % 0x400)

/-- A code point in a string. -/
def escapePoint : CodePoint → List Char
  | .char c => escapeChar c
  | .surrogate n => escapeUnit (0xD800 + n.1)

/-- A string. -/
def dumpsStr (s : Str) : List Char := '"' :: s.flatMap escapePoint ++ ['"']

/-- A line break, with two spaces for each level. -/
def newline (level : ℕ) : List Char := '\n' :: List.replicate (2 * level) ' '

mutual

/-- `json.dumps(…, indent=2)`, at some level of nesting. -/
def dumps (level : ℕ) : Json → List Char
  | .null => "null".toList
  | .bool true => "true".toList
  | .bool false => "false".toList
  | .num literal => literal
  | .str s => dumpsStr s
  | .arr [] => "[]".toList
  | .arr (item :: items) =>
    '[' :: newline (level + 1) ++ dumps (level + 1) item ++ dumpsItems (level + 1) items ++
      newline level ++ [']']
  | .obj [] => "{}".toList
  | .obj ((key, v) :: members) =>
    '{' :: newline (level + 1) ++ dumpsStr key ++ ": ".toList ++ dumps (level + 1) v ++
      dumpsMembers (level + 1) members ++ newline level ++ ['}']

/-- The items of an array after the first. -/
def dumpsItems (level : ℕ) : List Json → List Char
  | [] => []
  | item :: items => ',' :: newline level ++ dumps level item ++ dumpsItems level items

/-- The members of an object after the first. -/
def dumpsMembers (level : ℕ) : List (Str × Json) → List Char
  | [] => []
  | (key, v) :: members =>
    ',' :: newline level ++ dumpsStr key ++ ": ".toList ++ dumps level v ++
      dumpsMembers level members

end

/-! ## Scanning what was dumped -/

section Scan

variable {limit : ℕ} {stack : List Frame} {text : Str} {isKey : Bool}

@[simp]
theorem scan_nil (s : Scanner) : scan limit s [] = .ok s := rfl

/-- A character, and the rest from where it has led. -/
theorem scan_cons {s t : Scanner} {c : Char} (h : step limit s c = .ok t) (rest : List Char) :
    scan limit s (c :: rest) = scan limit t rest := by
  rw [scan, h]
  rfl

/-- A digit of a `\u` escape. -/
theorem scan_digit {digits value d : ℕ} (hd : d < 16) (rest : List Char) :
    scan limit ⟨stack, .unit text isKey digits value⟩ (digitChar d :: rest) =
      scan limit (if digits = 3 then ⟨stack, .string (pushUnit text (16 * value + d)) isKey⟩
        else ⟨stack, .unit text isKey (digits + 1) (16 * value + d)⟩) rest := by
  refine scan_cons ?_ rest
  simp only [step, digitValue_digitChar hd]
  split <;> rfl

/-- An escape is read as its unit. -/
theorem scan_escapeUnit {n : ℕ} (hn : n < 0x10000) (rest : List Char) :
    scan limit ⟨stack, .string text isKey⟩ (escapeUnit n ++ rest) =
      scan limit ⟨stack, .string (pushUnit text n) isKey⟩ rest := by
  have hvalue : 16 * (16 * (16 * (16 * 0 + n / 4096) + n / 256 % 16) + n / 16 % 16) + n % 16 =
    n := by
    omega
  have hmod : ∀ m : ℕ, m % 16 < 16 := fun m => Nat.mod_lt _ (by decide)
  rw [escapeUnit]
  simp only [List.cons_append, List.nil_append]
  rw [scan_cons (t := ⟨stack, .escape text isKey⟩) rfl,
    scan_cons (t := ⟨stack, .unit text isKey 0 0⟩) rfl, scan_digit (by omega), if_neg (by decide),
    scan_digit (hmod _), if_neg (by decide), scan_digit (hmod _), if_neg (by decide),
    scan_digit (hmod _), if_pos rfl, hvalue]

/-- A unit that is a character is appended. -/
theorem pushUnit_char {c : Char} (hc : c.toNat < 0x10000) :
    pushUnit text c.toNat = text ++ [.char c] := by
  have hvalid : c.toNat < 0xD800 ∨ 0xDFFF < c.toNat ∧ c.toNat < 0x110000 := c.valid
  rw [pushUnit, dif_neg (by omega), Char.ofNat_toNat]

/-- The two halves of a surrogate pair. -/
theorem pushUnit_pair {n : ℕ} (hn : n < 0x100000) :
    pushUnit (pushUnit text (0xD800 + n / 0x400)) (0xDC00 + n % 0x400) =
      text ++ [.char (Char.ofNat (0x10000 + n))] := by
  have hhigh : pushUnit text (0xD800 + n / 0x400) =
      text ++ [.surrogate ⟨n / 0x400, by omega⟩] := by
    have hfin : (⟨0xD800 + n / 0x400 - 0xD800, by omega⟩ : Fin 0x800) = ⟨n / 0x400, by omega⟩ :=
      Fin.ext (Nat.add_sub_cancel_left ..)
    rw [pushUnit, dif_pos (by omega), hfin]
    split
    · rw [if_neg (by omega)]
    · rfl
  have hsum : 0x10000 + n / 0x400 * 0x400 + (0xDC00 + n % 0x400 - 0xDC00) = 0x10000 + n := by omega
  rw [hhigh, pushUnit, dif_pos (by omega), List.getLast?_concat]
  dsimp only
  rw [if_pos (by omega), List.dropLast_concat, hsum]

/-- A character of a string is scanned back. -/
theorem scan_escapeChar (c : Char) (rest : List Char) :
    scan limit ⟨stack, .string text isKey⟩ (escapeChar c ++ rest) =
      scan limit ⟨stack, .string (text ++ [.char c]) isKey⟩ rest := by
  have hshort : ∀ {e : Char},
      unescape stack text isKey e = .ok ⟨stack, .string (text ++ [.char c]) isKey⟩ →
      scan limit ⟨stack, .string text isKey⟩ ('\\' :: e :: rest) =
        scan limit ⟨stack, .string (text ++ [.char c]) isKey⟩ rest := fun he =>
    (scan_cons (t := ⟨stack, .escape text isKey⟩) rfl _).trans
      (scan_cons (s := ⟨stack, .escape text isKey⟩) he rest)
  rw [escapeChar]
  split_ifs with h₁ h₂ h₃ h₄ h₅ h₆ h₇ hprintable hshortUnit
  · exact hshort (by rw [h₁]; rfl)
  · exact hshort (by rw [h₂]; rfl)
  · exact hshort (by rw [h₃]; rfl)
  · exact hshort (by rw [h₄]; rfl)
  · exact hshort (by rw [h₅]; rfl)
  · exact hshort (by rw [h₆]; rfl)
  · exact hshort (by rw [h₇]; rfl)
  · -- A printable character stands for itself.
    have hge : ¬ c.toNat < 0x20 := Nat.not_lt.mpr hprintable.1
    refine scan_cons ?_ rest
    simp only [step]
    rw [if_neg h₁, if_neg h₂, if_neg hge]
  · rw [scan_escapeUnit hshortUnit, pushUnit_char hshortUnit]
  · -- A character beyond the first plane is a pair of units.
    have hvalid : c.toNat < 0xD800 ∨ 0xDFFF < c.toNat ∧ c.toNat < 0x110000 := c.valid
    have hsum : 0x10000 + (c.toNat - 0x10000) = c.toNat := by omega
    rw [List.append_assoc, scan_escapeUnit (by omega), scan_escapeUnit (by omega),
      pushUnit_pair (by omega), hsum, Char.ofNat_toNat]

/-- Escaped characters are read as the characters. -/
theorem scan_escapeChars (chars rest : List Char) :
    scan limit ⟨stack, .string text isKey⟩ ((ofChars chars).flatMap escapePoint ++ rest) =
      scan limit ⟨stack, .string (text ++ ofChars chars) isKey⟩ rest := by
  induction chars generalizing text with
  | nil => simp [ofChars]
  | cons c chars ih =>
    have hcons : (ofChars (c :: chars)).flatMap escapePoint ++ rest =
        escapeChar c ++ ((ofChars chars).flatMap escapePoint ++ rest) := by
      simp [ofChars, escapePoint]
    rw [hcons, scan_escapeChar, ih, List.append_assoc]
    rfl

/-- A string is scanned back. -/
theorem scan_string (chars rest : List Char) :
    scan limit ⟨stack, .string [] isKey⟩
      ((ofChars chars).flatMap escapePoint ++ ('"' :: rest)) =
        scan limit (endString (ofChars chars) isKey stack) rest := by
  rw [scan_escapeChars, List.nil_append]
  exact scan_cons (s := ⟨stack, .string (ofChars chars) isKey⟩) rfl rest

/-- A printed string stands between quotation marks. -/
theorem dumpsStr_append (s : Str) (rest : List Char) :
    dumpsStr s ++ rest = '"' :: (s.flatMap escapePoint ++ ('"' :: rest)) := by
  simp [dumpsStr]

/-- It is read as the string, where a value is due. -/
theorem scan_dumpsStr_value (chars rest : List Char) :
    scan limit ⟨stack, .value⟩ (dumpsStr (ofChars chars) ++ rest) =
      scan limit (complete (.str (ofChars chars)) stack) rest := by
  rw [dumpsStr_append, scan_cons (t := ⟨stack, .string [] false⟩) rfl, scan_string]
  rfl

/-- White space is skipped. -/
theorem scan_newline {s : Scanner} (hs : ∀ c, isBlank c = true → step limit s c = .ok s)
    (level : ℕ) (rest : List Char) : scan limit s (newline level ++ rest) = scan limit s rest := by
  have hspaces (n : ℕ) : scan limit s (List.replicate n ' ' ++ rest) = scan limit s rest := by
    induction n with
    | zero => rfl
    | succ n ih =>
      rw [List.replicate_succ, List.cons_append, scan_cons (hs ' ' rfl), ih]
  rw [newline, List.cons_append, scan_cons (hs '\n' rfl), hspaces]

variable {members : List (Str × Json)} {lastKey : Str}

/-- A member whose value is a string. -/
theorem scan_member {mode : Mode} (hmode : mode = .objectStart ∨ mode = .key) (level : ℕ)
    (key v rest : List Char) :
    scan limit ⟨.object members lastKey :: stack, mode⟩
      (newline level ++ (dumpsStr (ofChars key) ++
        (": ".toList ++ (dumps level (.str (ofChars v)) ++ rest)))) =
      scan limit ⟨.object (Dict.insert members (ofChars key) (.str (ofChars v))) [] :: stack,
        .after⟩ rest := by
  have hblank : ∀ c, isBlank c = true → step limit ⟨.object members lastKey :: stack, mode⟩ c =
      .ok ⟨.object members lastKey :: stack, mode⟩ := by
    rintro c hc
    rcases hmode with rfl | rfl <;> simp [step, hc]
  have hquote : step limit ⟨.object members lastKey :: stack, mode⟩ '"' =
      .ok ⟨.object members lastKey :: stack, .string [] true⟩ := by
    rcases hmode with rfl | rfl <;> rfl
  have hcolon : ": ".toList = [':', ' '] := rfl
  rw [scan_newline hblank, dumpsStr_append, scan_cons hquote, scan_string, hcolon]
  simp only [List.cons_append, List.nil_append]
  rw [endString, scan_cons (t := ⟨.object members (ofChars key) :: stack, .value⟩) rfl,
    scan_cons (t := ⟨.object members (ofChars key) :: stack, .value⟩) rfl, dumps,
    scan_dumpsStr_value, complete]

/-- Members whose values are strings. -/
def strings (items : List (List Char × List Char)) : List (Str × Json) :=
  items.map fun item => (ofChars item.1, .str (ofChars item.2))

theorem strings_cons (item : List Char × List Char) (items : List (List Char × List Char)) :
    strings (item :: items) = (ofChars item.1, .str (ofChars item.2)) :: strings items := rfl

/-- Printed members are read into the object that is open. -/
theorem scan_dumpsMembers (level : ℕ) (items : List (List Char × List Char)) (rest : List Char) :
    scan limit ⟨.object members [] :: stack, .after⟩ (dumpsMembers level (strings items) ++ rest) =
      scan limit ⟨.object (Dict.update members (strings items)) [] :: stack, .after⟩ rest := by
  induction items generalizing members with
  | nil => rfl
  | cons item items ih =>
    rw [strings_cons, dumpsMembers, Dict.update_cons, ← ih]
    simp only [List.cons_append, List.append_assoc]
    rw [scan_cons (t := ⟨.object members [] :: stack, .key⟩) rfl, scan_member (.inr rfl)]

/-- An object whose values are strings loads as it was dumped, with the last of the members that
have the same key. -/
theorem loads_dumps_strings (hlimit : 0 < limit) (items : List (List Char × List Char)) :
    loads limit (dumps 0 (.obj (strings items)) ++ ['\n']) =
      .ok (.obj (Dict.ofItems (strings items))) := by
  have hopen : step limit ⟨[], .value⟩ '{' = .ok ⟨[.object [] []], .objectStart⟩ := if_pos hlimit
  have hend : ∀ v : Json, (scan limit ⟨[], .done v⟩ ['\n']).bind finish = .ok v := fun _ => rfl
  cases items with
  | nil =>
    have hempty : dumps 0 (.obj (strings [])) = ['{', '}'] := rfl
    rw [loads, hempty, List.cons_append, scan_cons hopen, List.cons_append,
      scan_cons (t := ⟨[], .done (.obj [])⟩) rfl]
    exact hend _
  | cons item items =>
    rw [loads, strings_cons, dumps]
    simp only [List.cons_append, List.append_assoc, List.nil_append]
    rw [scan_cons hopen, scan_member (.inl rfl), scan_dumpsMembers]
    rw [scan_newline (by intro c hc; simp [step, delimit, hc]),
      scan_cons (t := ⟨[], .done (.obj _)⟩) rfl]
    exact hend _

end Scan

/-! ## Objects that were loaded -/

/-- Opening an object takes a level of recursion, and its keys differ. -/
def Sound (limit : ℕ) : Json → Prop
  | .obj members => 0 < limit ∧ Dict.KeysDiffer members
  | _ => True

/-- Likewise for an open object. -/
def Frame.Sound (limit : ℕ) : Frame → Prop
  | .array _ => True
  | .object members _ => 0 < limit ∧ Dict.KeysDiffer members

/-- Everything that is open is as it should be, and so is what is complete. -/
def Scanner.Sound (limit : ℕ) (s : Scanner) : Prop :=
  (∀ f ∈ s.stack, f.Sound limit) ∧
    match s.mode with
    | .done v | .constant _ v => v.Sound limit
    | .objectStart => 0 < limit
    | _ => True

section Sound

variable {limit : ℕ} {stack : List Frame} {s t : Scanner} {c : Char}

/-- A sound value completes a sound state. -/
theorem sound_complete {v : Json} (hv : v.Sound limit) (hstack : ∀ f ∈ stack, f.Sound limit) :
    (complete v stack).Sound limit := by
  match stack, hstack with
  | [], _ => exact ⟨nofun, hv⟩
  | .array items :: stack, hstack =>
    exact ⟨List.forall_mem_cons.mpr ⟨trivial, (List.forall_mem_cons.mp hstack).2⟩, trivial⟩
  | .object members key :: stack, hstack =>
    obtain ⟨hmembers, hrest⟩ := List.forall_mem_cons.mp hstack
    exact ⟨List.forall_mem_cons.mpr ⟨⟨hmembers.1, hmembers.2.insert key v⟩, hrest⟩, trivial⟩

/-- So does the end of a string. -/
theorem sound_endString {text : Str} {isKey : Bool} (hstack : ∀ f ∈ stack, f.Sound limit) :
    (endString text isKey stack).Sound limit := by
  match isKey, stack, hstack with
  | true, .object members _ :: stack, hstack =>
    obtain ⟨hmembers, hrest⟩ := List.forall_mem_cons.mp hstack
    have hframe : (Frame.object members text).Sound limit := hmembers
    exact ⟨List.forall_mem_cons.mpr ⟨hframe, hrest⟩, trivial⟩
  | true, [], hstack | true, .array _ :: stack, hstack | false, stack, hstack =>
    exact sound_complete trivial hstack

/-- A delimiter keeps the state sound. -/
theorem sound_delimit (hs : s.Sound limit) (h : delimit s c = .ok t) : t.Sound limit := by
  unfold delimit at h
  split at h
  · cases h
    exact hs
  split at h
  · split_ifs at h <;> cases h
    · exact ⟨hs.1, trivial⟩
    · exact sound_complete trivial (List.forall_mem_cons.mp hs.1).2
  · obtain ⟨hmembers, hrest⟩ := List.forall_mem_cons.mp hs.1
    split_ifs at h <;> cases h
    · exact ⟨hs.1, trivial⟩
    · exact sound_complete hmembers hrest
  · cases h

/-- So does the beginning of a value. -/
theorem sound_startValue (hstack : ∀ f ∈ stack, f.Sound limit)
    (h : startValue limit stack c = .ok t) : t.Sound limit := by
  rw [startValue] at h
  split_ifs at h <;> cases h
  -- A container is opened, or something that holds no object is begun.
  all_goals first
    | exact ⟨hstack, trivial⟩
    | exact ⟨List.forall_mem_cons.mpr ⟨trivial, hstack⟩, trivial⟩
    | exact ⟨List.forall_mem_cons.mpr ⟨⟨Nat.zero_lt_of_lt ‹_›, Dict.keysDiffer_nil⟩, hstack⟩,
        Nat.zero_lt_of_lt ‹_›⟩

/-- So does an escape. -/
theorem sound_unescape {text : Str} {isKey : Bool} (hstack : ∀ f ∈ stack, f.Sound limit)
    (h : unescape stack text isKey c = .ok t) : t.Sound limit := by
  rw [unescape] at h
  split_ifs at h <;> cases h
  all_goals exact ⟨hstack, trivial⟩

/-- A character keeps things as they should be. -/
theorem sound_step (hs : s.Sound limit) (h : step limit s c = .ok t) : t.Sound limit := by
  obtain ⟨stack, mode⟩ := s
  have hstack : ∀ f ∈ stack, f.Sound limit := hs.1
  have htail : ∀ f ∈ stack.tail, f.Sound limit := fun f hf => hstack f (List.mem_of_mem_tail hf)
  -- One case for each mode of the scanner.
  cases mode with
  | value =>
    simp only [step] at h
    split_ifs at h
    · cases h
      exact hs
    · exact sound_startValue hstack h
  | arrayStart =>
    simp only [step] at h
    split_ifs at h
    · cases h
      exact hs
    · cases h
      exact sound_complete trivial htail
    · exact sound_startValue hstack h
  | objectStart =>
    simp only [step] at h
    split_ifs at h <;> cases h
    · exact hs
    · exact sound_complete (v := .obj []) ⟨hs.2, Dict.keysDiffer_nil⟩ htail
    · exact ⟨hstack, trivial⟩
  | key | colon =>
    simp only [step] at h
    split_ifs at h <;> cases h <;> exact ⟨hstack, trivial⟩
  | after | done => exact sound_delimit hs h
  | string text isKey =>
    simp only [step] at h
    split_ifs at h <;> cases h
    · exact sound_endString hstack
    · exact ⟨hstack, trivial⟩
    · exact ⟨hstack, trivial⟩
  | escape text isKey => exact sound_unescape hstack h
  | unit text isKey digits value =>
    simp only [step] at h
    split at h
    · cases h
    · split_ifs at h <;> cases h <;> exact ⟨hstack, trivial⟩
  | number text =>
    simp only [step] at h
    split_ifs at h
    · cases h
      exact ⟨hstack, trivial⟩
    · cases h
      exact ⟨hstack, trivial⟩
    · -- A number ends at a delimiter, which then is a step of its own.
      exact sound_delimit (sound_complete (v := .num text) trivial hstack) h
  | constant rest v =>
    simp only [step] at h
    split at h
    · cases h
    · split_ifs at h <;> cases h
      · exact sound_complete hs.2 hstack
      · exact ⟨hstack, hs.2⟩

/-- So does a text. -/
theorem sound_scan {text : List Char} (hs : s.Sound limit) (h : scan limit s text = .ok t) :
    t.Sound limit := by
  induction text generalizing s with
  | nil =>
    cases h
    exact hs
  | cons c text ih =>
    rw [scan] at h
    cases hstep : step limit s c with
    | error e =>
      rw [hstep] at h
      cases h
    | ok s' =>
      rw [hstep] at h
      exact ih (sound_step hs hstep) h

/-- An object that was loaded could be opened, and its keys differ. -/
theorem sound_loads {text : List Char} {members : List (Str × Json)}
    (h : loads limit text = .ok (.obj members)) : 0 < limit ∧ Dict.KeysDiffer members := by
  rw [loads] at h
  cases hscan : scan limit ⟨[], .value⟩ text with
  | error e =>
    rw [hscan] at h
    cases h
  | ok t =>
    have ht : t.Sound limit := sound_scan ⟨List.forall_mem_nil _, trivial⟩ hscan
    rw [hscan, Except.bind] at h
    unfold finish at h
    split at h
    · cases h
      exact ht.2
    · split_ifs at h
      cases h
    · cases h

end Sound

end Json

end Text
