import PqcIot.Config.Template
import PqcIot.Text.C
import PqcIot.Text.Regex

/-!
# Reading the key out of the configuration

`extract_bytes` of `tools/register_device.py` looks for a `#define` with a regular expression that
knows neither comments nor where a name ends. `registered_iff` says when the bytes that it returns
are the bytes that the C compiler puts into the macro: the first text of that form decides, wherever
it stands.
-/

namespace PqcIot

open Text

/-! ## `int` of Python -/

section Int

-- The digits outside ASCII that `int` accepts.
variable (decimal : Char → Option (Fin 10))

/-- A character as `int` reads it. -/
def asciiDigit (c : Char) : Char :=
  -- A character of another script stands for the digit that it means.
  if c.toNat < 128 then c
  else if isWhitespace c then ' '
  else match decimal c with
    | some d => digitChar d
    | none => '?'

/-- Equality of words is decided by their characters. -/
local instance lawfulBEqWord : LawfulBEq (List Char) := inferInstance

/-- Digits, grouped by single underscores. -/
def grouped (base : ℕ) (chars : List Char) : Option ℕ :=
  if [] ∈ chars.splitOn '_' then none else numeral base (chars.filter (· ≠ '_'))

/-- Digits behind a prefix; an underscore may stand before them. -/
def prefixed (base : ℕ) : List Char → Option ℕ
  | '_' :: chars => grouped base chars
  | chars => grouped base chars

/-- A number without a sign. A decimal one begins with a zero only if it is zero. -/
def unsigned (chars : List Char) : Option ℕ :=
  match chars with
  | '0' :: x :: digits =>
    if x = 'x' ∨ x = 'X' then prefixed 16 digits
    else if x = 'b' ∨ x = 'B' then prefixed 2 digits
    else if x = 'o' ∨ x = 'O' then prefixed 8 digits
    else (grouped 10 chars).filter (· = 0)
  | chars => grouped 10 chars

/-- `int(v, 0)`; `none` where it raises `ValueError`. -/
def pyInt (v : List Char) : Option ℤ :=
  match strip (v.map (asciiDigit decimal)) with
  | '-' :: chars => (unsigned chars).map fun n => -Int.ofNat n
  | '+' :: chars => (unsigned chars).map Int.ofNat
  | chars => (unsigned chars).map Int.ofNat

end Int

/-! ## `extract_bytes` -/

namespace ExtractBytes

/-- The `ValueError` of `bytes(int(v, 0) for v in values)`. -/
inductive ByteError where
  | invalidLiteral (v : List Char)
  | notInRange
  deriving DecidableEq, Repr

/-- The ways in which `extract_bytes` ends the program. -/
inductive Exit where
  | notFound
  | noInitialiser
  | notByteLiteral (exc : ByteError)
  | wrongLength (length : ℕ)
  deriving DecidableEq, Repr

/-- What the program says at its end, where `str` is the text of an exception. -/
def Exit.message (macroName : String) (expected : ℕ) (str : ByteError → String) : Exit → String
  | .notFound => s!"{macroName} not found in the config header"
  | .noInitialiser => s!"{macroName} has no \x7b ... \x7d initialiser"
  | .notByteLiteral exc => s!"{macroName} contains a value that is not a byte literal: {str exc}"
  | .wrongLength length => s!"{macroName} has {length} bytes, expected {expected}"

open Regex in
/-- `#define\s+MACRO\s*`. -/
def definition (macroName : List Char) : Regex :=
  seq (literal "#define".toList) (seq (plus (char isWhitespace))
    (seq (literal macroName) (star true (char isWhitespace))))

/-- `[^\n\\]`. -/
def isInLine (c : Char) : Bool := c != '\n' && c != '\\'

open Regex in
/-- `\\\s*\n`. -/
def lineEnd : Regex :=
  seq (char (· == '\\')) (seq (star true (char isWhitespace)) (char (· == '\n')))

open Regex in
/-- `[^\n\\]*\\\s*\n`. -/
def continuedLine : Regex := seq (star true (char isInLine)) lineEnd

open Regex in
/-- `(?:[^\n\\]*\\\s*\n)*[^\n]*`. -/
def definitionBody : Regex := seq (star true continuedLine) (star true (char (· != '\n')))

/-- `values`. -/
def values (inner : List Char) : List (List Char) :=
  -- A comma at the end of the list leaves nothing behind it.
  ((inner.splitOn ',').map strip).filter (· ≠ [])

variable (decimal : Char → Option (Fin 10))

/-- A byte of `bytes(int(v, 0) for v in values)`. -/
def byteOf (v : List Char) : Except ByteError UInt8 :=
  match pyInt decimal v with
  | none => .error (.invalidLiteral v)
  | some n => if 0 ≤ n ∧ n < 256 then .ok (UInt8.ofNat n.toNat) else .error .notInRange

/-- `bytes(int(v, 0) for v in values)`. -/
def bytesOf (inner : List Char) : Except ByteError (List UInt8) :=
  (values inner).mapM (byteOf decimal)

/-- `match.group(1).replace("\\", " ")`. -/
def withoutBackslashes (group : List Char) : List Char :=
  group.map fun c => if c = '\\' then ' ' else c

/-- `extract_bytes`. -/
def extractBytes (source macroName : List Char) (expected : ℕ) : Except Exit (List UInt8) :=
  match Regex.findGroup (definition macroName) definitionBody .empty source with
  | none => .error .notFound
  | some group =>
    -- The initialiser ends at the first closing brace.
    match Regex.findGroup (.char (· == '{')) (.star false (.char fun _ => true))
        (.char (· == '}')) (withoutBackslashes group) with
    | none => .error .noInitialiser
    | some inner =>
      match bytesOf decimal inner with
      | .error exc => .error (.notByteLiteral exc)
      | .ok raw => if raw.length ≠ expected then .error (.wrongLength raw.length) else .ok raw

/-! ## Where the expression matches -/

section Match

variable {macroName source text rest : List Char} {c : Char}

/-- What follows `#define\s+MACRO` at the beginning of the text. -/
def afterDefine (macroName text : List Char) : Option (List Char) :=
  if "#define".toList <+: text then
    match text.drop 7 with
    | c :: text =>
      if isWhitespace c = true ∧ macroName <+: text.dropWhile isWhitespace then
        some ((text.dropWhile isWhitespace).drop macroName.length)
      else none
    | [] => none
  else none

/-- The white space behind the name belongs to the match. -/
theorem first_definition (hname : ∀ c ∈ macroName.head?, isWhitespace c = false)
    (hne : macroName ≠ []) (text : List Char) :
    (Regex.first (definition macroName) text).map Prod.snd =
      (afterDefine macroName text).map (List.dropWhile isWhitespace) := by
  -- The name does not begin within the white space before it.
  have hstop : ∀ c text, isWhitespace c = true →
      Regex.candidates (.seq (Regex.literal macroName) (.star true (.char isWhitespace)))
        (c :: text) = [] := by
    intro c text hc
    obtain ⟨d, name, rfl⟩ := List.exists_cons_of_ne_nil hne
    have hd : ¬ d = c := by
      rintro rfl
      simp [hc] at hname
    rw [Regex.candidates_seq_literal, if_neg (by simp [hd])]
  rw [Regex.first, definition, Regex.candidates_seq_literal, afterDefine]
  by_cases hdefine : "#define".toList <+: text
  · rw [if_pos hdefine, if_pos hdefine, Regex.plus]
    have hlength : "#define".toList.length = 7 := rfl
    rw [hlength, Regex.candidates_seq_assoc]
    cases text.drop 7 with
    | nil => rfl
    | cons c u =>
      rw [Regex.candidates_seq_char_cons, Regex.candidates_seq_star_char hstop,
        Regex.candidates_seq_literal]
      have hspace := Regex.first_star_char isWhitespace
        ((u.dropWhile isWhitespace).drop macroName.length)
      rw [Regex.first] at hspace
      by_cases hc : isWhitespace c =
        true <;> by_cases hprefix : macroName <+: u.dropWhile isWhitespace <;>
        simp [hc, hprefix, hspace, Regex.Match.after]
  · rw [if_neg hdefine, if_neg hdefine]
    rfl

/-- What `definitionBody` matches at the beginning of the text. -/
def bodyOf (text : List Char) : List Char :=
  ((Regex.first definitionBody text).map Prod.fst).getD []

/-- `#define`, white space and the name stand in the text, between `before` and `rest`. -/
def DefinesAt (macroName source before rest : List Char) : Prop :=
  ∃ space, space ≠ [] ∧ (∀ c ∈ space, isWhitespace c = true) ∧
    source = before ++ ("#define".toList ++ (space ++ (macroName ++ rest)))

/-- They do so for the first time. -/
structure FirstDefine (macroName source before rest : List Char) : Prop where
  here : DefinesAt macroName source before rest
  first : ∀ before' rest', DefinesAt macroName source before' rest' → before.length ≤ before'.length

theorem afterDefine_nil (macroName : List Char) : afterDefine macroName [] = none := rfl

section First

variable (hname : ∀ c ∈ macroName.head?, isWhitespace c = false) (hne : macroName ≠ [])
  {before : List Char}
include hname hne

/-- Where they stand is where `afterDefine` finds them. -/
theorem definesAt_iff : DefinesAt macroName source before rest ↔
    ∃ text, source = before ++ text ∧ afterDefine macroName text = some rest := by
  obtain ⟨d, name, rfl⟩ := List.exists_cons_of_ne_nil hne
  have hd : isWhitespace d = false := hname d rfl
  constructor
  · rintro ⟨space, hspace, hblank, rfl⟩
    obtain ⟨c, space, rfl⟩ := List.exists_cons_of_ne_nil hspace
    refine ⟨_, rfl, ?_⟩
    -- The white space ends where the name begins.
    have hdrop : (space ++ (d :: name ++ rest)).dropWhile isWhitespace = d :: name ++ rest := by
      rw [List.dropWhile_append_of_pos (List.forall_mem_cons.mp hblank).2, List.cons_append,
        List.dropWhile_cons_of_neg (by simp [hd])]
    have hlength : "#define".toList.length = 7 := rfl
    rw [afterDefine, if_pos (List.prefix_append _ _), ← hlength, List.drop_left]
    show (if isWhitespace c = true ∧
        d :: name <+: (space ++ (d :: name ++ rest)).dropWhile isWhitespace then
      some (((space ++ (d :: name ++ rest)).dropWhile isWhitespace).drop (d :: name).length)
      else none) = some rest
    rw [hdrop, if_pos ⟨hblank c List.mem_cons_self, List.prefix_append _ _⟩, List.drop_left]
  · rintro ⟨text, rfl, h⟩
    rw [afterDefine] at h
    split at h
    · next hdefine =>
      obtain ⟨text, rfl⟩ := hdefine
      have hlength : "#define".toList.length = 7 := rfl
      rw [← hlength, List.drop_left] at h
      split at h
      · next c text =>
        split_ifs at h with hif
        obtain ⟨hc, rest', hrest'⟩ := hif
        rw [← hrest', List.drop_left, Option.some.injEq] at h
        refine ⟨c :: text.takeWhile isWhitespace, List.cons_ne_nil _ _,
          List.forall_mem_cons.mpr ⟨hc, fun b hb => List.mem_takeWhile_imp hb⟩, ?_⟩
        rw [← h, hrest', List.cons_append, List.takeWhile_append_dropWhile]
      · cases h
    · cases h

/-- So it is for the first time. -/
theorem firstDefine_iff : FirstDefine macroName source before rest ↔
    (∃ text, source = before ++ text ∧ afterDefine macroName text = some rest) ∧
      ∀ before' text', source = before' ++ text' → afterDefine macroName text' ≠ none →
        before.length ≤ before'.length := by
  constructor
  · rintro ⟨hhere, hfirst⟩
    refine ⟨(definesAt_iff hname hne).mp hhere, fun before' text' heq hsome => ?_⟩
    obtain ⟨rest', hrest'⟩ := Option.ne_none_iff_exists'.mp hsome
    exact hfirst before' rest' ((definesAt_iff hname hne).mpr ⟨text', heq, hrest'⟩)
  · rintro ⟨hhere, hfirst⟩
    refine ⟨(definesAt_iff hname hne).mpr hhere, fun before' rest' h => ?_⟩
    obtain ⟨text', heq, hsome⟩ := (definesAt_iff hname hne).mp h
    exact hfirst before' text' heq (by simp [hsome])

/-- At the beginning of the text they are the first. -/
theorem firstDefine_cons_of_some {rest' : List Char}
    (h : afterDefine macroName (c :: text) = some rest) :
    FirstDefine macroName (c :: text) before rest' ↔ before = [] ∧ rest' = rest := by
  rw [firstDefine_iff hname hne]
  constructor
  · rintro ⟨⟨text', heq, hrest⟩, hfirst⟩
    have hbefore : before = [] := List.length_eq_zero_iff.mp
      (Nat.le_zero.mp (hfirst [] (c :: text) rfl (by simp [h])))
    subst hbefore
    rw [List.nil_append] at heq
    rw [← heq, h] at hrest
    exact ⟨rfl, (Option.some.inj hrest).symm⟩
  · rintro ⟨rfl, rfl⟩
    exact ⟨⟨c :: text, rfl, h⟩, fun _ _ _ _ => Nat.zero_le _⟩

/-- Where they do not stand at the beginning, they are sought in the rest. -/
theorem firstDefine_cons_of_none (h : afterDefine macroName (c :: text) = none) :
    FirstDefine macroName (c :: text) before rest ↔
      ∃ before', before = c :: before' ∧ FirstDefine macroName text before' rest := by
  simp only [firstDefine_iff hname hne]
  constructor
  · rintro ⟨⟨text', heq, hrest⟩, hfirst⟩
    cases before with
    | nil =>
      rw [List.nil_append] at heq
      rw [← heq, h] at hrest
      cases hrest
    | cons d before =>
      rw [List.cons_append, List.cons.injEq] at heq
      obtain ⟨rfl, rfl⟩ := heq
      refine ⟨before, rfl, ⟨text', rfl, hrest⟩, fun before' text'' heq hsome => ?_⟩
      -- A definition in the text is one in the longer text, a character further on.
      have hle := hfirst (c :: before') text'' (by rw [List.cons_append, heq]) hsome
      exact Nat.le_of_succ_le_succ hle
  · rintro ⟨before, rfl, ⟨text', rfl, hrest⟩, hfirst⟩
    refine ⟨⟨text', rfl, hrest⟩, fun before' text'' heq hsome => ?_⟩
    cases before' with
    | nil =>
      rw [List.nil_append] at heq
      exact absurd (heq ▸ h) hsome
    | cons d before' =>
      rw [List.cons_append, List.cons.injEq] at heq
      exact Nat.succ_le_succ (hfirst before' text'' heq.2 hsome)

/-- They do not stand in the empty text. -/
theorem not_firstDefine_nil : ¬ FirstDefine macroName [] before rest := by
  rw [firstDefine_iff hname hne]
  rintro ⟨⟨text, heq, hrest⟩, -⟩
  rw [(List.nil_eq_append_iff.mp heq).2] at hrest
  cases hrest

end First

theorem first_definitionBody_ne_none (text : List Char) :
    Regex.first definitionBody text ≠ none := by
  rw [definitionBody, Regex.first_seq fun _ => Regex.first_star_ne_none _]
  obtain ⟨m, hm⟩ := Option.ne_none_iff_exists'.mp
    (Regex.first_star_ne_none (r := continuedLine) text)
  obtain ⟨m', hm'⟩ := Option.ne_none_iff_exists'.mp
    (Regex.first_star_ne_none (r := .char (· != '\n')) m.2)
  simp [hm, hm']

/-- The first text of the form `#define MACRO` decides, wherever it stands. -/
theorem findGroup_definition_iff (hname : ∀ c ∈ macroName.head?, isWhitespace c = false)
    (hne : macroName ≠ []) (group : List Char) :
    Regex.findGroup (definition macroName) definitionBody .empty source = some group ↔
      ∃ before rest, FirstDefine macroName source before rest ∧
        group = bodyOf (rest.dropWhile isWhitespace) := by
  -- At one place, the group is the line behind the name.
  have hat (text : List Char) : Regex.groupAt (definition macroName) definitionBody .empty text =
      (afterDefine macroName text).map fun rest => bodyOf (rest.dropWhile isWhitespace) := by
    have hsnd := first_definition hname hne text
    rw [Regex.groupAt_empty first_definitionBody_ne_none]
    cases hfirst : Regex.first (definition macroName) text with
    | none =>
      rw [hfirst] at hsnd
      rw [Option.map_eq_none_iff.mp hsnd.symm]
      rfl
    | some m =>
      rw [hfirst] at hsnd
      obtain ⟨rest, hrest, hm⟩ := Option.map_eq_some_iff.mp hsnd.symm
      obtain ⟨m', hm'⟩ := Option.ne_none_iff_exists'.mp (first_definitionBody_ne_none m.2)
      simp [hrest, hm, hm', bodyOf]
  -- The search goes on to the next character where it fails.
  induction source generalizing group with
  | nil =>
    rw [Regex.findGroup, hat, afterDefine_nil]
    simp [not_firstDefine_nil hname hne]
  | cons c source ih =>
    rw [Regex.findGroup, hat]
    cases h : afterDefine macroName (c :: source) with
    | none =>
      have hrest := ih group
      simp only [Option.map_none, Option.none_or, hrest, firstDefine_cons_of_none hname hne h]
      grind
    | some rest =>
      simp only [Option.map_some, Option.some_or, Option.some.injEq,
        firstDefine_cons_of_some hname hne h]
      grind

/-! ## Continued lines -/

/-- The end of a line that is continued: the line break is the last one in the white space behind
the backslash. -/
theorem candidates_lineEnd_of_not_mem (h : '\n' ∉ text.takeWhile isWhitespace) :
    Regex.candidates (.seq (.star true (.char isWhitespace)) (.char (· == '\n'))) text = [] := by
  induction text with
  | nil => rfl
  | cons c text ih =>
    rw [Regex.candidates, Regex.candidates_star_char]
    by_cases hc : isWhitespace c = true
    · rw [List.takeWhile_cons_of_pos hc, List.mem_cons, not_or] at h
      have hrest := ih h.2
      rw [Regex.candidates] at hrest
      have hchar : (c == '\n') = false := beq_eq_false_iff_ne.mpr (Ne.symm h.1)
      rw [if_pos hc, Regex.followed_append, Regex.followed_map_after, hrest]
      simp [Regex.followed, Regex.candidates, hchar]
    · have hchar : (c == '\n') = false := by
        refine beq_eq_false_iff_ne.mpr ?_
        rintro rfl
        exact hc rfl
      simp [Regex.followed, Regex.candidates, hc, hchar]

theorem first_lineEnd {blanks : List Char} (hblanks : ∀ b ∈ blanks, isWhitespace b = true)
    (h : '\n' ∉ text.takeWhile isWhitespace) :
    Regex.first (.seq (.star true (.char isWhitespace)) (.char (· == '\n')))
      (blanks ++ '\n' :: text) =
      some (blanks ++ ['\n'], text) := by
  induction blanks with
  | nil =>
    have hrest := candidates_lineEnd_of_not_mem h
    rw [Regex.candidates] at hrest
    rw [List.nil_append, Regex.first, Regex.candidates, Regex.candidates_star_char,
      if_pos (by decide), Regex.followed_append, Regex.followed_map_after, hrest]
    rfl
  | cons b blanks ih =>
    have hrest := ih fun b' hb' => hblanks b' (List.mem_cons_of_mem b hb')
    rw [Regex.first, Regex.candidates] at hrest
    rw [List.cons_append, Regex.first, Regex.candidates, Regex.candidates_star_char,
      if_pos (hblanks b List.mem_cons_self), Regex.followed_append, Regex.followed_map_after,
      List.head?_append, List.head?_map, hrest]
    rfl

theorem lineEnd_stop : ∀ c text, isInLine c = true → Regex.candidates lineEnd (c :: text) = [] := by
  intro c text hc
  have hslash : (c == '\\') = false := by
    rw [isInLine, Bool.and_eq_true] at hc
    simpa using hc.2
  rw [lineEnd, Regex.candidates_seq_char_cons, hslash]
  rfl

theorem first_continuedLine (text : List Char) : Regex.first continuedLine text =
    (Regex.first lineEnd (text.dropWhile isInLine)).map
      (Regex.Match.after (text.takeWhile isInLine)) := by
  rw [Regex.first, continuedLine, Regex.candidates_seq_star_char lineEnd_stop,
    List.head?_map, Regex.first]

/-- A continued line has at least its backslash. -/
theorem continuedLine_ne_nil {m : Regex.Match} (h : Regex.first continuedLine text = some m) :
    m.1 ≠ [] := by
  rw [first_continuedLine] at h
  obtain ⟨m', hm', rfl⟩ := Option.map_eq_some_iff.mp h
  have hne : m'.1 ≠ [] := by
    cases hdrop : text.dropWhile isInLine with
    | nil =>
      rw [hdrop] at hm'
      cases hm'
    | cons c rest =>
      rw [hdrop, Regex.first, lineEnd, Regex.candidates_seq_char_cons] at hm'
      split at hm'
      · rw [List.head?_map, Option.map_eq_some_iff] at hm'
        obtain ⟨m'', -, rfl⟩ := hm'
        simp [Regex.Match.after]
      · cases hm'
  simp [Regex.Match.after, hne]

theorem bodyOf_of_none (h : Regex.first continuedLine text = none) :
    bodyOf text = text.takeWhile (· != '\n') := by
  rw [bodyOf, definitionBody, Regex.first_seq fun _ => Regex.first_star_ne_none _,
    Regex.first_star_of_none h]
  simp [Regex.first_star_char, Regex.Match.after]

theorem bodyOf_of_some {m : Regex.Match} (h : Regex.first continuedLine text = some m) :
    bodyOf text = m.1 ++ bodyOf m.2 := by
  have hne := continuedLine_ne_nil h
  have hseq (text : List Char) : Regex.first definitionBody text = _ :=
    Regex.first_seq (Regex.first_star_ne_none (r := .char (· != '\n')))
  obtain ⟨m', hm'⟩ := Option.ne_none_iff_exists'.mp
    (Regex.first_star_ne_none (r := continuedLine) m.2)
  obtain ⟨m'', hm''⟩ := Option.ne_none_iff_exists'.mp
    (Regex.first_star_ne_none (r := .char (· != '\n')) m'.2)
  rw [bodyOf, bodyOf, hseq, hseq, Regex.first_star_of_some h hne, hm']
  simp [hm'', Regex.Match.after]

/-- A character that neither ends a line nor continues it belongs to the body. -/
theorem bodyOf_cons (hc : isInLine c = true) : bodyOf (c :: text) = c :: bodyOf text := by
  have hline : Regex.first continuedLine (c :: text) =
      (Regex.first continuedLine text).map (Regex.Match.after [c]) := by
    rw [first_continuedLine, first_continuedLine, List.dropWhile_cons_of_pos hc,
      List.takeWhile_cons_of_pos hc, Option.map_map, Regex.after_comp_after]
    rfl
  have hbreak : (c != '\n') = true := by
    rw [isInLine, Bool.and_eq_true] at hc
    exact hc.1
  cases h : Regex.first continuedLine text with
  | none =>
    rw [h] at hline
    simp [bodyOf_of_none hline, bodyOf_of_none h, hbreak]
  | some m =>
    rw [h] at hline
    rw [bodyOf_of_some hline, bodyOf_of_some h]
    rfl

/-- A continued line belongs to the body, and so does what follows it. -/
theorem bodyOf_lineEnd {blanks : List Char} (hblanks : ∀ b ∈ blanks, isWhitespace b = true)
    (h : '\n' ∉ text.takeWhile isWhitespace) :
    bodyOf ('\\' :: (blanks ++ '\n' :: text)) = '\\' :: (blanks ++ '\n' :: bodyOf text) := by
  have hline : Regex.first continuedLine ('\\' :: (blanks ++ '\n' :: text)) =
      some ('\\' :: (blanks ++ ['\n']), text) := by
    have hend := first_lineEnd hblanks h
    rw [Regex.first] at hend
    rw [first_continuedLine, List.dropWhile_cons_of_neg (by decide),
      List.takeWhile_cons_of_neg (by decide), Regex.first, lineEnd, Regex.candidates_seq_char_cons,
      beq_self_eq_true, if_pos rfl, List.head?_map, hend]
    rfl
  rw [bodyOf_of_some hline]
  simp

/-- Characters of a line before the text make its body longer. -/
theorem bodyOf_append_left {line : List Char} (hline : ∀ c ∈ line, isInLine c = true) :
    bodyOf (line ++ text) = line ++ bodyOf text := by
  induction line with
  | nil => rfl
  | cons c line ih =>
    rw [List.forall_mem_cons] at hline
    rw [List.cons_append, bodyOf_cons hline.1, ih hline.2, List.cons_append]

/-- The text begins with a line that a backslash continues: `blanks` stands between the backslash
and a line break, and `rest` behind that. -/
structure Continues (text line blanks rest : List Char) : Prop where
  inLine : ∀ c ∈ line, isInLine c = true
  blank : ∀ b ∈ blanks, isWhitespace b = true
  text_eq : text = line ++ '\\' :: (blanks ++ '\n' :: rest)

/-- Where a line break stands in the white space at the beginning of a text. -/
theorem exists_break (h : '\n' ∈ text.takeWhile isWhitespace) :
    ∃ blanks rest, (∀ b ∈ blanks, isWhitespace b = true) ∧ text = blanks ++ '\n' :: rest := by
  obtain ⟨blanks, blanks', hsplit⟩ := List.append_of_mem h
  refine ⟨blanks, blanks' ++ text.dropWhile isWhitespace, fun b hb => ?_, ?_⟩
  · have hmem : b ∈ text.takeWhile isWhitespace := by
      rw [hsplit]
      exact List.mem_append_left _ hb
    exact List.mem_takeWhile_imp hmem
  · calc text = text.takeWhile isWhitespace ++ text.dropWhile isWhitespace :=
          List.takeWhile_append_dropWhile.symm
      _ = blanks ++ '\n' :: (blanks' ++ text.dropWhile isWhitespace) := by simp [hsplit]

/-- A text in which the expression finds a continued line begins with one. -/
theorem exists_continues {m : Regex.Match} (h : Regex.first continuedLine text = some m) :
    ∃ line blanks rest, Continues text line blanks rest := by
  rw [first_continuedLine] at h
  obtain ⟨m', hm', -⟩ := Option.map_eq_some_iff.mp h
  cases hdrop : text.dropWhile isInLine with
  | nil =>
    rw [hdrop] at hm'
    cases hm'
  | cons c rest =>
    rw [hdrop, Regex.first, lineEnd, Regex.candidates_seq_char_cons] at hm'
    split at hm'
    · next hc =>
      have hbreak : '\n' ∈ rest.takeWhile isWhitespace := by
        by_contra hno
        rw [candidates_lineEnd_of_not_mem hno] at hm'
        cases hm'
      obtain ⟨blanks, rest', hblanks, hrest⟩ := exists_break hbreak
      refine ⟨text.takeWhile isInLine, blanks, rest', fun c hc => List.mem_takeWhile_imp hc,
        hblanks, ?_⟩
      rw [← hrest, ← beq_iff_eq.mp hc, ← hdrop, List.takeWhile_append_dropWhile]
    · cases hm'

/-- Of the line breaks that can end a continued line, there is a last one. -/
theorem Continues.exists_last {line blanks rest : List Char} (h : Continues text line blanks rest) :
    ∃ blanks rest, Continues text line blanks rest ∧ '\n' ∉ rest.takeWhile isWhitespace := by
  induction hn : rest.length using Nat.strong_induction_on generalizing blanks rest with
  | _ n ih =>
    by_cases hbreak : '\n' ∈ rest.takeWhile isWhitespace
    · obtain ⟨blanks', rest', hblanks', rfl⟩ := exists_break hbreak
      have hlonger : Continues text line (blanks ++ '\n' :: blanks') rest' := by
        refine ⟨h.inLine, fun b hb => ?_, ?_⟩
        · rcases List.mem_append.mp hb with hb | hb
          · exact h.blank b hb
          · rcases List.mem_cons.mp hb with rfl | hb
            · decide
            · exact hblanks' b hb
        · rw [h.text_eq]
          simp
      refine ih _ ?_ hlonger rfl
      rw [← hn, List.length_append, List.length_cons]
      omega
    · exact ⟨blanks, rest, h, hbreak⟩

/-- The line at the beginning of a text, with the lines that continue it: a line goes on behind the
last line break in the white space that follows its first backslash, and ends at a line break if
there is none. -/
inductive LogicalLine : List Char → List Char → Prop
  | last {text line rest : List Char} : text = line ++ rest → '\n' ∉ line →
    (∀ c ∈ rest.head?, c = '\n') → (∀ line blanks rest, ¬ Continues text line blanks rest) →
    LogicalLine text line
  | continued {text line blanks rest body : List Char} : Continues text line blanks rest →
    '\n' ∉ rest.takeWhile isWhitespace → LogicalLine rest body →
    LogicalLine text (line ++ '\\' :: (blanks ++ '\n' :: body))

theorem LogicalLine.eq_bodyOf {line : List Char} (h : LogicalLine text line) :
    line = bodyOf text := by
  induction h with
  | @last text line rest htext hline hrest hno =>
    have hnone : Regex.first continuedLine text = none := by
      by_contra hsome
      obtain ⟨m, hm⟩ := Option.ne_none_iff_exists'.mp hsome
      obtain ⟨line, blanks, rest, hcontinues⟩ := exists_continues hm
      exact hno line blanks rest hcontinues
    have hall : ∀ c ∈ line, (c != '\n') = true := by
      rintro c hc
      exact bne_iff_ne.mpr fun heq => hline (heq ▸ hc)
    rw [bodyOf_of_none hnone, htext, List.takeWhile_append_of_pos hall]
    cases rest with
    | nil => simp
    | cons c rest => simp [hrest c rfl]
  | continued hcontinues hlast _ ih =>
    rw [hcontinues.text_eq, bodyOf_append_left hcontinues.inLine,
      bodyOf_lineEnd hcontinues.blank hlast, ← ih]

/-- Each text begins with a line. -/
theorem exists_logicalLine (text : List Char) : ∃ line, LogicalLine text line := by
  induction hn : text.length using Nat.strong_induction_on generalizing text with
  | _ n ih =>
    by_cases h : ∃ line blanks rest, Continues text line blanks rest
    · obtain ⟨line, _, _, hcontinues⟩ := h
      obtain ⟨blanks, rest, hcontinues, hlast⟩ := hcontinues.exists_last
      have hshorter : rest.length < n := by
        rw [← hn, hcontinues.text_eq]
        simp
        omega
      obtain ⟨body, hbody⟩ := ih _ hshorter rest rfl
      exact ⟨_, .continued hcontinues hlast hbody⟩
    · push Not at h
      have hsplit : text = text.takeWhile (· != '\n') ++ text.dropWhile (· != '\n') :=
        List.takeWhile_append_dropWhile.symm
      refine ⟨_, .last hsplit ?_ ?_ h⟩
      · intro hmem
        have hne := List.mem_takeWhile_imp hmem
        simp at hne
      · intro c hc
        have hne := List.head?_dropWhile_not (· != '\n') text
        rw [Option.mem_def.mp hc] at hne
        simpa using hne

/-- The expression takes the line with the lines that continue it. -/
theorem logicalLine_iff {line : List Char} : LogicalLine text line ↔ line = bodyOf text := by
  refine ⟨LogicalLine.eq_bodyOf, ?_⟩
  rintro rfl
  obtain ⟨line, hline⟩ := exists_logicalLine text
  exact hline.eq_bodyOf ▸ hline

end Match

/-! ## What is returned -/

/-- On the line, `inner` stands between the first opening brace and the closing one that follows. -/
def Braces (line inner : List Char) : Prop :=
  ∃ pre post, withoutBackslashes line = pre ++ '{' :: inner ++ '}' :: post ∧ '{' ∉ pre ∧ '}' ∉ inner

/-- The words between the commas are the literals of these bytes, as Python reads them. -/
def Literals (inner : List Char) (raw : List UInt8) : Prop :=
  List.Forall₂ (fun v b => pyInt decimal v = some (Int.ofNat b.toNat)) (values inner) raw

theorem byteOf_eq_ok_iff {v : List Char} {b : UInt8} :
    byteOf decimal v = .ok b ↔ pyInt decimal v = some (Int.ofNat b.toNat) := by
  rw [byteOf]
  cases pyInt decimal v with
  | none => simp
  | some n =>
    have hb : b.toNat < 256 := b.toNat_lt
    simp only [Option.some.injEq]
    split_ifs with hrange
    · rw [Except.ok.injEq, UInt8.ofNat_eq_iff_mod_eq_toNat]
      simp only [Int.ofNat_eq_natCast]
      omega
    · refine iff_of_false not_false ?_
      simp only [Int.ofNat_eq_natCast]
      omega

theorem literals_iff {inner : List Char} {raw : List UInt8} :
    Literals decimal inner raw ↔ bytesOf decimal inner = .ok raw := by
  rw [Literals, bytesOf]
  generalize values inner = words
  induction words generalizing raw with
  | nil =>
    rw [List.forall₂_nil_left_iff, List.mapM_nil]
    exact ⟨fun h => congrArg Except.ok h.symm, fun h => (Except.ok.inj h).symm⟩
  | cons v words ih =>
    rw [List.mapM_cons, List.forall₂_cons_left_iff]
    constructor
    · rintro ⟨b, raw, hb, hraw, rfl⟩
      rw [(byteOf_eq_ok_iff decimal).mpr hb, ih.mp hraw]
      rfl
    · intro h
      cases hb : byteOf decimal v with
      | error exc =>
        rw [hb] at h
        cases h
      | ok b =>
        cases hwords : words.mapM (byteOf decimal) with
        | error exc =>
          rw [hb, hwords] at h
          cases h
        | ok raw' =>
          rw [hb, hwords] at h
          exact ⟨b, raw', (byteOf_eq_ok_iff decimal).mp hb, ih.mpr hwords,
            (Except.ok.inj h).symm⟩

/-- `extract_bytes` returns the bytes between the braces that follow the first `#define` of the
name. -/
theorem extractBytes_eq_ok_iff {macroName : List Char} (source : List Char) (expected : ℕ)
    (raw : List UInt8) (hname : ∀ c ∈ macroName.head?, isWhitespace c = false)
    (hne : macroName ≠ []) :
    extractBytes decimal source macroName expected = .ok raw ↔
      ∃ before rest line inner, FirstDefine macroName source before rest ∧
        LogicalLine (rest.dropWhile isWhitespace) line ∧ Braces line inner ∧
        Literals decimal inner raw ∧ raw.length = expected := by
  -- The two searches, each as a statement about the text.
  have hgroup (group : List Char) :
      Regex.findGroup (definition macroName) definitionBody .empty source = some group ↔ _ :=
    findGroup_definition_iff hname hne group
  have hinner (inner text : List Char) :=
    Regex.findGroup_lazy_iff (show '{' ≠ '}' by decide) inner text
  constructor
  · intro h
    rw [extractBytes] at h
    split at h
    · cases h
    · next group hg =>
      obtain ⟨before, rest, hfirst, hline⟩ := (hgroup group).mp hg
      split at h
      · cases h
      · next inner hi =>
        split at h
        · cases h
        · next raw' hraw =>
          split_ifs at h with hlength
          obtain rfl := Except.ok.inj h
          exact ⟨before, rest, group, inner, hfirst, logicalLine_iff.mpr hline, (hinner _ _).mp hi,
            (literals_iff decimal).mpr hraw, not_not.mp hlength⟩
  · rintro ⟨before, rest, line, inner, hfirst, hline, hbraces, hraw, hlength⟩
    rw [extractBytes, (hgroup _).mpr ⟨before, rest, hfirst, logicalLine_iff.mp hline⟩]
    simp only [(hinner _ _).mpr hbraces, (literals_iff decimal).mp hraw, hlength]
    simp

end ExtractBytes

end PqcIot
