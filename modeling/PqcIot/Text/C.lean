import Mathlib.Data.List.DropRight
import PqcIot.Text.Hex

/-!
# Reading C

The first phases of the translation of a C file: lines that end in a backslash are joined, comments
become spaces, and each logical line is split into tokens. On the tokens, the macros that are
defined and the arrays of integers that are declared are read. Conditional directives are not
evaluated.
-/

namespace Text

/-! ## Transducers -/

/-- A machine that reads one symbol after the other and writes some. -/
structure Transducer (σ α β : Type) where
  step : σ → α → σ × List β
  /-- What is written at the end. -/
  flush : σ → List β

namespace Transducer

variable {σ α β : Type} (t : Transducer σ α β) (s : σ)

/-- The state after some input. -/
def state : σ → List α → σ
  | s, [] => s
  | s, a :: input => state (t.step s a).1 input

/-- What is written while the input is read. -/
def emit : σ → List α → List β
  | _, [] => []
  | s, a :: input => (t.step s a).2 ++ emit (t.step s a).1 input

/-- What is written for the whole input. -/
def run (input : List α) : List β := t.emit s input ++ t.flush (t.state s input)

/-- The state after two texts. -/
theorem state_append (x y : List α) : t.state s (x ++ y) = t.state (t.state s x) y := by
  induction x generalizing s with
  | nil => rfl
  | cons a x ih => exact ih _

/-- What is emitted on two texts. -/
theorem emit_append (x y : List α) : t.emit s (x ++ y) = t.emit s x ++ t.emit (t.state s x) y := by
  induction x generalizing s with
  | nil => rfl
  | cons a x ih =>
    rw [List.cons_append, emit, ih, emit, List.append_assoc]
    rfl

/-- A run over two texts. -/
theorem run_append (x y : List α) : t.run s (x ++ y) = t.emit s x ++ t.run (t.state s x) y := by
  rw [run, emit_append, state_append, List.append_assoc, run]

/-- Symbols that leave the state as it is are written one by one. -/
theorem read_of_forall (f : α → List β) (input : List α) (h : ∀ a ∈ input, t.step s a = (s, f a)) :
    t.state s input = s ∧ t.emit s input = input.flatMap f := by
  induction input with
  | nil => exact ⟨rfl, rfl⟩
  | cons a input ih =>
    obtain ⟨hstate, hemit⟩ := ih fun b hb => h b (List.mem_cons_of_mem a hb)
    rw [state, emit, h a List.mem_cons_self, List.flatMap_cons]
    exact ⟨hstate, by rw [hemit]⟩

end Transducer

namespace C

/-! ## Logical lines -/

/-- White space within a line. -/
def isHSpace (c : Char) : Bool := c = ' ' || c = '\t' || c = '\x0b' || c = '\x0c'

/-- Joins a line that ends in a backslash with the next one. As in GCC, white space may stand behind
the backslash. The state is what stands behind a backslash that has not been written yet. -/
def splice : Transducer (Option (List Char)) Char Char where
  step
    | none, c => if c = '\\' then (some [], []) else (none, [c])
    | some blanks, c =>
      if c = '\n' then (none, [])
      else if isHSpace c then (some (blanks ++ [c]), [])
      else if c = '\\' then (some [], '\\' :: blanks)
      else (none, '\\' :: blanks ++ [c])
  flush
    | none => []
    | some blanks => '\\' :: blanks

/-- Where in the text a character stands. -/
inductive Mode where
  | code
  /-- Behind a slash that has not been written yet. -/
  | slash
  | lineComment
  | blockComment
  /-- Behind an asterisk in a comment. -/
  | asterisk
  | quoted (quote : Char)
  /-- Behind a backslash between quotes. -/
  | escaped (quote : Char)
  deriving DecidableEq

/-- Replaces each comment by a space. -/
def uncomment : Transducer Mode Char Char where
  step
    | .code, c =>
      if c = '/' then (.slash, [])
      else if c = '"' ∨ c = '\'' then (.quoted c, [c])
      else (.code, [c])
    | .slash, c =>
      if c = '*' then (.blockComment, [])
      else if c = '/' then (.lineComment, [])
      else if c = '"' ∨ c = '\'' then (.quoted c, ['/', c])
      else (.code, ['/', c])
    | .lineComment, c => if c = '\n' then (.code, [' ', '\n']) else (.lineComment, [])
    | .blockComment, c => if c = '*' then (.asterisk, []) else (.blockComment, [])
    | .asterisk, c =>
      if c = '/' then (.code, [' '])
      else if c = '*' then (.asterisk, [])
      else (.blockComment, [])
    | .quoted q, c =>
      if c = '\\' then (.escaped q, [c])
      else if c = q ∨ c = '\n' then (.code, [c])
      else (.quoted q, [c])
    | .escaped q, c => (.quoted q, [c])
  flush
    | .slash => ['/']
    | _ => []

/-- The text without comments, each logical line on one line. -/
def preprocess (text : List Char) : List Char := uncomment.run .code (splice.run none text)

/-! ## Tokens -/

/-- A token. -/
inductive Token where
  /-- A name or a number. -/
  | word (chars : List Char)
  /-- A string or a character constant. -/
  | quoted (quote : Char) (chars : List Char)
  | punct (c : Char)
  deriving DecidableEq, Repr

/-- A character of a name or a number. -/
def isWordChar (c : Char) : Bool := c.isAlphanum || c = '_'

/-- The token that is being read. -/
inductive Pending where
  | nothing
  | word (chars : List Char)
  | quoted (quote : Char) (chars : List Char)
  | escaped (quote : Char) (chars : List Char)

/-- The beginning of a token. -/
def beginToken (c : Char) : Pending × List Token :=
  if isWordChar c then (.word [c], [])
  else if c = '"' ∨ c = '\'' then (.quoted c [], [])
  else if isHSpace c ∨ c = '\n' then (.nothing, [])
  else (.nothing, [.punct c])

/-- Splits a logical line. -/
def lex : Transducer Pending Char Token where
  step
    | .nothing, c => beginToken c
    | .word chars, c =>
      if isWordChar c then (.word (chars ++ [c]), [])
      else ((beginToken c).1, .word chars :: (beginToken c).2)
    | .quoted q chars, c =>
      if c = '\\' then (.escaped q (chars ++ [c]), [])
      else if c = q then (.nothing, [.quoted q chars])
      else (.quoted q (chars ++ [c]), [])
    | .escaped q chars, c => (.quoted q (chars ++ [c]), [])
  flush
    | .nothing => []
    | .word chars => [.word chars]
    | .quoted q chars => [.quoted q chars]
    | .escaped q chars => [.quoted q chars]

/-- The tokens of a logical line. -/
def tokens (line : List Char) : List Token := lex.run .nothing line

/-- The logical lines of a text. -/
def logicalLines (text : List Char) : List (List Token) :=
  ((preprocess text).splitOn '\n').map tokens

/-! ## Macros -/

/-- What `#define` defines, and the tokens that stand for it. -/
def defined : List Token → Option (List Char × List Token)
  | .punct '#' :: .word directive :: .word name :: body =>
    if directive = ['d', 'e', 'f', 'i', 'n', 'e'] then some (name, body) else none
  | _ => none

/-- The macros that a text defines. -/
def macros (text : List Char) : List (List Char × List Token) :=
  (logicalLines text).filterMap defined

/-- What stands for a macro, at each of its definitions. -/
def definitions (text name : List Char) : List (List Token) :=
  ((macros text).filter (·.1 = name)).map (·.2)

/-! ## Reading in parts -/

section

variable {x y : List Char} {c : Char} {w : List Char}

/-- With its lines joined, the text `x` is `y`, whatever follows. -/
def Spliced (x y : List Char) : Prop := splice.state none x = none ∧ splice.emit none x = y

/-- Spliced text before spliced text. -/
theorem Spliced.append {x' y' : List Char} (h : Spliced x y) (h' : Spliced x' y') :
    Spliced (x ++ x') (y ++ y') := by
  obtain ⟨hstate, rfl⟩ := h
  obtain ⟨hstate', rfl⟩ := h'
  exact ⟨by rw [Transducer.state_append, hstate, hstate'],
    by rw [Transducer.emit_append, hstate]⟩

/-- Text without a backslash is left as it is. -/
theorem Spliced.plain (h : '\\' ∉ x) : Spliced x x := by
  have hread := splice.read_of_forall none (fun c => [c]) x fun c hc => by
    have hne : c ≠ '\\' := fun heq => h (heq ▸ hc)
    simp [splice, hne]
  simpa [Spliced] using hread

/-- The end of a continued line is left out. -/
theorem Spliced.lineEnd {blanks : List Char} (h : ∀ b ∈ blanks, isHSpace b = true) :
    Spliced ('\\' :: (blanks ++ ['\n'])) [] := by
  have hblanks (seen : List Char) : splice.state (some seen) (blanks ++ ['\n']) = none ∧
      splice.emit (some seen) (blanks ++ ['\n']) = [] := by
    induction blanks generalizing seen with
    | nil => exact ⟨rfl, rfl⟩
    | cons b blanks ih =>
      have hb := h b List.mem_cons_self
      have hne : b ≠ '\n' := by
        rintro rfl
        cases hb
      have hrest := ih (fun b' hb' => h b' (List.mem_cons_of_mem b hb')) (seen ++ [b])
      simpa [Transducer.state, Transducer.emit, splice, hb, hne] using hrest
  exact hblanks []

/-- A character that neither begins a comment nor a string. -/
def isPlain (c : Char) : Bool := c != '/' && c != '"' && c != '\''

/-- Text without comments and strings is left as it is. -/
theorem uncomment_plain (h : ∀ c ∈ x, isPlain c = true) :
    uncomment.state .code x = .code ∧ uncomment.emit .code x = x := by
  have hread := uncomment.read_of_forall .code (fun c => [c]) x fun c hc => by
    have hplain := h c hc
    simp only [isPlain, Bool.and_eq_true, bne_iff_ne] at hplain
    simp [uncomment, hplain]
  simpa using hread

/-- The white space within a line. -/
theorem isHSpace_cases (h : isHSpace c = true) : c = ' ' ∨ c = '\t' ∨ c = '\x0b' ∨ c = '\x0c' := by
  simpa [isHSpace, or_assoc] using h

/-- It is plain, and ends no line. -/
theorem isPlain_of_isHSpace (h : isHSpace c = true) : isPlain c = true ∧ c ≠ '\n' := by
  rcases isHSpace_cases h with rfl | rfl | rfl | rfl <;> decide

/-- It belongs to no word. -/
theorem not_isWordChar_of_isHSpace (h : isHSpace c = true) : isWordChar c = false := by
  rcases isHSpace_cases h with rfl | rfl | rfl | rfl <;> rfl

/-- White space separates tokens. -/
theorem tokens_hspace (h : ∀ c ∈ x, isHSpace c = true) : tokens (x ++ y) = tokens y := by
  have hread := lex.read_of_forall .nothing (fun _ => []) x fun c hc => by
    rcases isHSpace_cases (h c hc) with rfl | rfl | rfl | rfl <;> rfl
  rw [tokens, Transducer.run_append, hread.1, hread.2]
  simp [tokens]

/-- A word ends before a character that does not belong to it. -/
theorem tokens_word (hne : w ≠ []) (hw : ∀ c ∈ w, isWordChar c = true)
    (hy : ∀ c ∈ y.head?, isWordChar c = false) : tokens (w ++ y) = .word w :: tokens y := by
  have hread (u : List Char) : ∀ w : List Char, (∀ c ∈ w, isWordChar c = true) →
      lex.state (.word u) w = .word (u ++ w) ∧ lex.emit (.word u) w = [] := by
    intro w hw
    induction w generalizing u with
    | nil => simp [Transducer.state, Transducer.emit]
    | cons c w ih =>
      have hc := hw c List.mem_cons_self
      have hrest := ih (u ++ [c]) fun d hd => hw d (List.mem_cons_of_mem c hd)
      simpa [Transducer.state, Transducer.emit, lex, hc] using hrest
  obtain ⟨c, w, rfl⟩ := List.exists_cons_of_ne_nil hne
  obtain ⟨hstate, hemit⟩ := hread [c] w fun d hd => hw d (List.mem_cons_of_mem c hd)
  have hbegin : lex.step .nothing c = (.word [c], []) := by
    simp [lex, beginToken, hw c List.mem_cons_self]
  rw [tokens, Transducer.run_append, Transducer.state, Transducer.emit, hbegin, hstate, hemit]
  -- What follows begins a token of its own.
  cases y with
  | nil => rfl
  | cons d y =>
    have hd : isWordChar d = false := hy d rfl
    simp [tokens, Transducer.run, Transducer.state, Transducer.emit, lex, hd]

/-- A punctuator is a token. -/
theorem tokens_punct (hword : isWordChar c = false) (hplain : c ≠ '"' ∧ c ≠ '\'')
    (hspace : isHSpace c = false ∧ c ≠ '\n') : tokens (c :: y) = .punct c :: tokens y := by
  have hbegin : lex.step .nothing c = (.nothing, [.punct c]) := by
    simp [lex, beginToken, hword, hplain, hspace]
  rw [tokens, Transducer.run, Transducer.state, Transducer.emit, hbegin, tokens, Transducer.run]
  rfl

/-- A part of a logical line that ends before something that is not a word, and its tokens. -/
def Reads (x : List Char) (toks : List Token) : Prop :=
  ∃ y, Spliced x y ∧ (∀ c ∈ y, isPlain c = true ∧ c ≠ '\n') ∧
    ∀ z, (∀ c ∈ z.head?, isWordChar c = false) → tokens (y ++ z) = toks ++ tokens z

namespace Reads

variable {x' : List Char} {toks toks' : List Token}

/-- The empty text reads as no token. -/
theorem nil : Reads [] [] := ⟨[], ⟨rfl, rfl⟩, by simp, fun _ _ => rfl⟩

/-- A word before something else. -/
theorem word (hne : w ≠ []) (hw : ∀ c ∈ w, isWordChar c = true) : Reads w [.word w] := by
  have hchar : ∀ c, isWordChar c = true → c ≠ '\\' ∧ isPlain c = true ∧ c ≠ '\n' := by
    intro c hc
    refine ⟨?_, ?_, ?_⟩
    · rintro rfl
      cases hc
    · by_contra hplain
      have hcases : c = '/' ∨ c = '"' ∨ c = '\'' := by
        simp only [isPlain, Bool.and_eq_true, bne_iff_ne, not_and_or, not_not] at hplain
        tauto
      rcases hcases with rfl | rfl | rfl <;> cases hc
    · rintro rfl
      cases hc
  refine ⟨w, .plain fun h => (hchar _ (hw _ h)).1 rfl, fun c hc => (hchar c (hw c hc)).2,
    fun z hz => ?_⟩
  exact tokens_word hne hw hz

/-- Two parts with a punctuator between them. -/
theorem punct (h : Reads x toks) (hword : isWordChar c = false) (hplain : isPlain c = true)
    (hslash : c ≠ '\\') (hspace : isHSpace c = false ∧ c ≠ '\n') (h' : Reads x' toks') :
    Reads (x ++ c :: x') (toks ++ .punct c :: toks') := by
  obtain ⟨y, hsplice, hy, htokens⟩ := h
  obtain ⟨y', hsplice', hy', htokens'⟩ := h'
  have hquote : c ≠ '"' ∧ c ≠ '\'' := by
    simp only [isPlain, Bool.and_eq_true, bne_iff_ne] at hplain
    exact ⟨hplain.1.2, hplain.2⟩
  have hone : Spliced [c] [c] := .plain (by simpa using Ne.symm hslash)
  refine ⟨y ++ c :: y', hsplice.append (hone.append hsplice'), ?_, fun z hz => ?_⟩
  · intro d hd
    rcases List.mem_append.mp hd with hd | hd
    · exact hy d hd
    · rcases List.mem_cons.mp hd with rfl | hd
      · exact ⟨hplain, hspace.2⟩
      · exact hy' d hd
  · rw [List.append_assoc, List.cons_append, htokens _ (by simpa using hword),
      tokens_punct hword hquote hspace, htokens' z hz, List.append_assoc, List.cons_append]

section Space

variable {g s : List Char} (hg : Spliced g s) (hs : ∀ c ∈ s, isHSpace c = true)
include hg hs

/-- White space before a part. -/
theorem space_append (h : Reads x toks) : Reads (g ++ x) toks := by
  obtain ⟨y, hsplice, hy, htokens⟩ := h
  refine ⟨s ++ y, hg.append hsplice, ?_, fun z hz => ?_⟩
  · exact fun d hd => (List.mem_append.mp hd).elim (fun h => isPlain_of_isHSpace (hs d h)) (hy d)
  · rw [List.append_assoc, tokens_hspace hs, htokens z hz]

/-- White space behind a part. -/
theorem append_space (h : Reads x toks) : Reads (x ++ g) toks := by
  obtain ⟨y, hsplice, hy, htokens⟩ := h
  refine ⟨y ++ s, hsplice.append hg, ?_, fun z hz => ?_⟩
  · exact fun d hd => (List.mem_append.mp hd).elim (hy d) fun h => isPlain_of_isHSpace (hs d h)
  · have hhead : ∀ c ∈ (s ++ z).head?, isWordChar c = false := by
      cases s with
      | nil => exact hz
      | cons d s => simpa using not_isWordChar_of_isHSpace (hs d List.mem_cons_self)
    rw [List.append_assoc, htokens _ hhead, tokens_hspace hs]

/-- Two parts with white space between them. -/
theorem separated (hne : s ≠ []) (h : Reads x toks) (h' : Reads x' toks') :
    Reads (x ++ (g ++ x')) (toks ++ toks') := by
  obtain ⟨y, hsplice, hy, htokens⟩ := h
  obtain ⟨y', hsplice', hy', htokens'⟩ := h'
  refine ⟨y ++ (s ++ y'), hsplice.append (hg.append hsplice'), ?_, fun z hz => ?_⟩
  · intro d hd
    simp only [List.mem_append] at hd
    obtain hd | hd | hd := hd
    · exact hy d hd
    · exact isPlain_of_isHSpace (hs d hd)
    · exact hy' d hd
  · have hhead : ∀ c ∈ (s ++ y' ++ z).head?, isWordChar c = false := by
      obtain ⟨d, s, rfl⟩ := List.exists_cons_of_ne_nil hne
      simpa using not_isWordChar_of_isHSpace (hs d List.mem_cons_self)
    rw [List.append_assoc, htokens _ hhead, List.append_assoc, tokens_hspace hs, htokens' z hz,
      List.append_assoc]

end Space

end Reads

/-- A part that ends outside of comments and strings, and not in a continued line. -/
structure Complete (x : List Char) : Prop where
  splice : splice.state none x = none
  code : uncomment.state .code (C.splice.emit none x) = .code

/-- A complete text is preprocessed on its own. -/
theorem preprocess_append (hx : Complete x) :
    preprocess (x ++ y) = uncomment.emit .code (splice.emit none x) ++ preprocess y := by
  rw [preprocess, splice.run_append, hx.splice, uncomment.run_append, hx.code, preprocess]

/-- So is a line break. -/
theorem preprocess_lineBreak : preprocess ('\n' :: y) = '\n' :: preprocess y :=
  preprocess_append (x := ['\n']) ⟨rfl, rfl⟩

/-- What is written at the end of a complete part has been written. -/
theorem preprocess_complete (hx : Complete x) :
    preprocess x = uncomment.emit .code (splice.emit none x) := by
  have h := preprocess_append (y := []) hx
  rwa [List.append_nil, show preprocess [] = [] from rfl, List.append_nil] at h

/-- Complete lines before complete lines. -/
theorem Complete.lineBreak (hx : Complete x) (hy : Complete y) : Complete (x ++ '\n' :: y) := by
  refine ⟨?_, ?_⟩
  · rw [Transducer.state_append, hx.splice]
    exact hy.splice
  · rw [Transducer.emit_append, hx.splice, Transducer.state_append, hx.code]
    exact hy.code

/-- Complete parts are read line by line. -/
theorem logicalLines_append (hx : Complete x) :
    logicalLines (x ++ '\n' :: y) = logicalLines x ++ logicalLines y := by
  rw [logicalLines, preprocess_append hx, preprocess_lineBreak, List.splitOn_append_cons_self,
    List.map_append, logicalLines, logicalLines, preprocess_complete hx]

/-- The macros of complete lines and of what follows. -/
theorem macros_append (hx : Complete x) : macros (x ++ '\n' :: y) = macros x ++ macros y := by
  rw [macros, logicalLines_append hx, List.filterMap_append, macros, macros]

/-- The definitions of a name, in the same way. -/
theorem definitions_append (hx : Complete x) (name : List Char) :
    definitions (x ++ '\n' :: y) name = definitions x name ++ definitions y name := by
  rw [definitions, macros_append hx, List.filter_append, List.map_append, definitions, definitions]

/-- What reads as tokens is complete. -/
theorem Reads.complete {toks : List Token} (h : Reads x toks) : Complete x := by
  obtain ⟨y, ⟨hstate, rfl⟩, hplain, -⟩ := h
  exact ⟨hstate, (uncomment_plain fun c hc => (hplain c hc).1).1⟩

/-- A part without line breaks is one line. -/
theorem Reads.logicalLines {toks : List Token} (h : Reads x toks) : logicalLines x = [toks] := by
  have hcomplete := h.complete
  obtain ⟨y, ⟨hstate, rfl⟩, hplain, htokens⟩ := h
  have hline := htokens [] (by simp)
  rw [List.append_nil, show tokens [] = [] from rfl, List.append_nil] at hline
  rw [C.logicalLines, preprocess_complete hcomplete,
    (uncomment_plain fun c hc => (hplain c hc).1).2, List.splitOn_eq_singleton fun hmem =>
    (hplain _ hmem).2 rfl, List.map_singleton, hline]

end

/-! ## Integers -/

/-- Letters of the suffix of an integer constant. -/
def isSuffixChar (c : Char) : Bool := c = 'u' || c = 'U' || c = 'l' || c = 'L'

/-- The suffixes of integer constants. -/
def suffixes : List (List Char) :=
  [[], ['u'], ['l'], ['u', 'l'], ['l', 'u'], ['l', 'l'], ['u', 'l', 'l'], ['l', 'l', 'u']]

/-- The value of an integer constant: hexadecimal, binary (in GCC), octal or decimal. -/
def integerConstant (word : List Char) : Option ℕ :=
  if (word.rtakeWhile isSuffixChar).map Char.toLower ∈ suffixes then
    match word.rdropWhile isSuffixChar with
    | '0' :: x :: digits =>
      if x = 'x' ∨ x = 'X' then numeral 16 digits
      else if x = 'b' ∨ x = 'B' then numeral 2 digits
      else numeral 8 (x :: digits)
    | digits => numeral 10 digits
  else none

/-- The digits of a number belong to a word and not to the suffix of a constant. -/
theorem isWordChar_of_digitValue {c : Char} {n : ℕ} (h : digitValue c = some n) :
    isWordChar c = true ∧ isSuffixChar c = false ∧ c ≠ '_' ∧ c ≠ '#' := by
  have hall : ∀ c ∈ digits, isWordChar c = true ∧ isSuffixChar c = false ∧ c ≠ '_' ∧ c ≠ '#' :=
    forall_mem_of_all (by decide)
  exact hall c (mem_digits h)

/-- Two hexadecimal digits. -/
theorem numeral_pair {hi lo : Char} {h l : ℕ} (hh : digitValue hi = some h)
    (hl : digitValue lo = some l) : numeral 16 [hi, lo] = some (16 * h + l) := by
  have h1 := digitValue_lt hh
  have h2 := digitValue_lt hl
  simp [numeral, hh, hl, h1, h2, Nat.mul_comm]

/-- A hexadecimal constant of two digits. -/
theorem integerConstant_pair {hi lo : Char} {h l : ℕ} (hh : digitValue hi = some h)
    (hl : digitValue lo = some l) : integerConstant ['0', 'x', hi, lo] = some (16 * h + l) := by
  have hsuffix : ¬ isSuffixChar lo = true := by
    simpa using (isWordChar_of_digitValue hl).2.1
  have hsplit : ['0', 'x', hi, lo] = ['0', 'x', hi] ++ [lo] := rfl
  rw [integerConstant, hsplit, List.rtakeWhile_concat_neg _ _ _ hsuffix,
    List.rdropWhile_concat_neg _ _ _ hsuffix]
  simpa [suffixes] using numeral_pair hh hl

/-! Decimal numbers, as they are printed. -/

/-- A decimal digit has its value. -/
theorem digitValue_natDigitChar {n : ℕ} (hn : n < 10) : digitValue n.digitChar = some n := by
  interval_cases n <;> rfl

/-- A number printed in decimal is read again. -/
theorem numeral_toDigits (n : ℕ) : numeral 10 (Nat.toDigits 10 n) = some n := by
  rw [numeral, if_neg Nat.toDigits_ne_nil]
  induction n using Nat.strongRecOn with
  | ind n ih =>
    rw [Nat.toDigits_eq_if (by decide)]
    split
    · next hn => simp [digitValue_natDigitChar hn, hn]
    · next hn =>
      -- The last digit comes off the end.
      have hmod : n % 10 < 10 := Nat.mod_lt _ (by decide)
      rw [List.foldlM_append, ih (n / 10) (by omega)]
      simp [digitValue_natDigitChar hmod, hmod, Nat.div_add_mod']

/-- A number of several digits does not begin with a zero. -/
theorem toDigits_ne_zero_cons (n : ℕ) (x : Char) (chars : List Char) :
    Nat.toDigits 10 n ≠ '0' :: x :: chars := by
  induction n using Nat.strongRecOn generalizing x chars with
  | ind n ih =>
    rw [Nat.toDigits_eq_if (by decide)]
    split
    · simp
    · next hn =>
      intro heq
      cases hdigits : Nat.toDigits 10 (n / 10) with
      | nil => exact Nat.toDigits_ne_nil hdigits
      | cons c rest =>
        rw [hdigits, List.cons_append, List.cons.injEq] at heq
        obtain ⟨rfl, heq⟩ := heq
        cases rest with
        | nil =>
          -- The number without its last digit would be zero.
          have hzero := numeral_toDigits (n / 10)
          rw [hdigits] at hzero
          have hvalue : numeral 10 ['0'] = some 0 := rfl
          rw [hvalue, Option.some.injEq] at hzero
          omega
        | cons y rest => exact ih (n / 10) (by omega) y rest hdigits

/-- It is one word. -/
theorem isWordChar_toDigits (n : ℕ) : ∀ c ∈ Nat.toDigits 10 n, isWordChar c = true := by
  intro c hc
  obtain ⟨d, hd, -⟩ := mem_of_numeral (numeral_toDigits n) c hc
  exact (isWordChar_of_digitValue hd).1

/-- C reads the number that has been printed. -/
theorem integerConstant_toDigits (n : ℕ) : integerConstant (Nat.toDigits 10 n) = some n := by
  have hlast : ∀ h : Nat.toDigits 10 n ≠ [],
      ¬ isSuffixChar ((Nat.toDigits 10 n).getLast h) = true := by
    intro h
    obtain ⟨d, hd, -⟩ := mem_of_numeral (numeral_toDigits n) _ (List.getLast_mem h)
    simpa using (isWordChar_of_digitValue hd).2.1
  rw [integerConstant, List.rtakeWhile_eq_nil_iff.mpr hlast, List.rdropWhile_eq_self_iff.mpr hlast,
    if_pos (by decide)]
  split
  · next x digits heq => exact absurd heq (toDigits_ne_zero_cons n x digits)
  · exact numeral_toDigits n

/-! ## Initialisers -/

/-- An initialiser. -/
inductive Init where
  | int (n : ℕ)
  | list (items : List Init)

/-- Reads an initialiser, within the lists of `stack`, the innermost first. `value` says that a
value has been read and not a comma. -/
def readInit : List (List Init) → Bool → List Token → Option (Init × List Token)
  | _, _, [] => none
  | stack, value, token :: rest =>
    match stack, value, token with
    | stack, false, .punct '{' => readInit ([] :: stack) false rest
    | [], false, .word w => (integerConstant w).map fun n => (.int n, rest)
    | items :: stack, false, .word w =>
      (integerConstant w).bind fun n => readInit ((items ++ [.int n]) :: stack) true rest
    | items :: stack, true, .punct ',' => readInit (items :: stack) false rest
    | [items], _, .punct '}' => some (.list items, rest)
    | items :: outer :: stack, _, .punct '}' =>
      readInit ((outer ++ [.list items]) :: stack) true rest
    | _, _, _ => none

/-- The bytes of an initialiser that is a list of them. -/
def Init.bytes : Init → Option (List UInt8)
  | .int _ => none
  | .list items => items.mapM fun
    | .int n => if n < 256 then some (UInt8.ofNat n) else none
    | .list _ => none

/-- The bytes for which the tokens stand. -/
def byteList (body : List Token) : Option (List UInt8) :=
  match readInit [] false body with
  | some (init, []) => init.bytes
  | _ => none

end C

end Text
