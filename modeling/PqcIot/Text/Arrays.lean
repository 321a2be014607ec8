import PqcIot.Text.C

/-!
# Reading arrays in C

The arrays of bytes that a C file declares are read from the tokens outside of directives.
`Declares` says what is read of a text that is put together from lines.
-/

namespace Text.C

/-! ## Declarations -/

/-- Whether a logical line is a directive. -/
def isDirective : List Token → Bool
  | .punct '#' :: _ => true
  | _ => false

/-- The tokens outside of directives. -/
def codeTokens (text : List Char) : List Token :=
  ((logicalLines text).filter fun line => !isDirective line).flatten

/-- An array and its initialiser. -/
structure ArrayDef where
  name : List Char
  dims : List ℕ
  init : Init

/-- The dimensions in front of some tokens. -/
def readDims : List Token → List ℕ × List Token
  | .punct '[' :: .word w :: .punct ']' :: rest =>
    match integerConstant w with
    | some n => (n :: (readDims rest).1, (readDims rest).2)
    | none => ([], .punct '[' :: .word w :: .punct ']' :: rest)
  | toks => ([], toks)

/-- What stands before the name of an array of constant bytes. -/
def constBytes : List Token :=
  [.word ['s', 't', 'a', 't', 'i', 'c'], .word ['c', 'o', 'n', 's', 't'],
    .word ['u', 'i', 'n', 't', '8', '_', 't']]

/-- A declaration of an array of constant bytes, without its semicolon. -/
def readArray (toks : List Token) : Option ArrayDef :=
  if toks.take 3 = constBytes then
    match toks.drop 3 with
    | .word name :: rest =>
      match readDims rest with
      | (dims, .punct '=' :: rest) =>
        match readInit [] false rest with
        | some (init, []) => some ⟨name, dims, init⟩
        | _ => none
      | _ => none
    | _ => none
  else none

/-- The arrays of constant bytes that some tokens declare. -/
def declared (toks : List Token) : List ArrayDef :=
  (toks.splitOn (.punct ';')).filterMap readArray

/-- The arrays of constant bytes that a text declares. -/
def arrays (text : List Char) : List ArrayDef := declared (codeTokens text)

/-! ## Their values -/

/-- The elements of an array that some of them are given for: the others are zero. -/
def pad {α : Type} (n : ℕ) (zero : α) (elements : List α) : Option (List α) :=
  if elements.length ≤ n then some (elements ++ List.replicate (n - elements.length) zero) else none

/-- The bytes of an array with one dimension. -/
def ArrayDef.bytes (a : ArrayDef) : Option (List UInt8) :=
  match a.dims with
  | [n] => a.init.bytes.bind (pad n 0)
  | _ => none

/-- The rows of an array with two dimensions. -/
def ArrayDef.rows (a : ArrayDef) : Option (List (List UInt8)) :=
  match a.dims, a.init with
  | [n, width], .list items =>
    (items.mapM fun item : Init => item.bytes.bind (pad width 0)).bind
      (pad n (List.replicate width 0))
  | _, _ => none

/-- Nothing is padded where there are enough elements. -/
theorem pad_length {α : Type} (zero : α) (elements : List α) :
    pad elements.length zero elements = some elements := by
  rw [pad, if_pos le_rfl, Nat.sub_self, List.replicate_zero, List.append_nil]

/-- The initialiser of an array with these bytes. -/
def Init.ofBytes (bytes : List UInt8) : Init := .list (bytes.map fun b => .int b.toNat)

/-- Elements that are read one by one. -/
theorem mapM_map_eq_some {α β γ : Type} {f : β → Option γ} {g : α → β} {h : α → γ} {l : List α}
    (hf : ∀ a ∈ l, f (g a) = some (h a)) : (l.map g).mapM f = some (l.map h) := by
  induction l with
  | nil => rfl
  | cons a l ih =>
    rw [List.forall_mem_cons] at hf
    rw [List.map_cons, List.mapM_cons, hf.1, ih hf.2]
    rfl

/-- An initialiser of bytes has these bytes. -/
@[simp]
theorem Init.bytes_ofBytes (bytes : List UInt8) : (Init.ofBytes bytes).bytes = some bytes := by
  rw [Init.ofBytes, Init.bytes, mapM_map_eq_some (h := id), List.map_id]
  intro b _
  simp [b.toNat_lt]

/-- An array of bytes. -/
def ArrayDef.ofBytes (name : List Char) (bytes : List UInt8) : ArrayDef :=
  ⟨name, [bytes.length], .ofBytes bytes⟩

/-- An array of rows of bytes. -/
def ArrayDef.ofRows (name : List Char) (width : ℕ) (rows : List (List UInt8)) : ArrayDef :=
  ⟨name, [rows.length, width], .list (rows.map .ofBytes)⟩

/-- So has an array with that initialiser. -/
@[simp]
theorem ArrayDef.bytes_ofBytes (name : List Char) (bytes : List UInt8) :
    (ofBytes name bytes).bytes = some bytes := by
  simp [ofBytes, ArrayDef.bytes, pad_length]

/-- An array of rows of one width has these rows. -/
theorem ArrayDef.rows_ofRows (name : List Char) {width : ℕ} {rows : List (List UInt8)}
    (h : ∀ row ∈ rows, row.length = width) : (ofRows name width rows).rows = some rows := by
  simp only [ofRows, ArrayDef.rows]
  rw [mapM_map_eq_some (h := id), List.map_id, Option.bind_some, pad_length]
  intro row hrow
  rw [Init.bytes_ofBytes, ← h row hrow, Option.bind_some, pad_length]
  rfl

/-! ## Reading a declaration -/

section Tokens

-- How a byte is written.
variable (word : UInt8 → List Char)

/-- The tokens of some bytes, with a comma behind each. -/
def byteTokens (bytes : List UInt8) : List Token :=
  bytes.flatMap fun b => [.word (word b), .punct ',']

/-- The tokens of a list of bytes. -/
def rowTokens (bytes : List UInt8) : List Token :=
  .punct '{' :: (byteTokens word bytes ++ [.punct '}'])

/-- The tokens of a list of lists of bytes. -/
def tableTokens (rows : List (List UInt8)) : List Token :=
  .punct '{' :: (rows.flatMap (fun row => rowTokens word row ++ [.punct ',']) ++ [.punct '}'])

/-- The tokens of the dimensions of an array. -/
def dimTokens (dims : List ℕ) : List Token :=
  dims.flatMap fun n => [.punct '[', .word (Nat.toDigits 10 n), .punct ']']

/-- The tokens of a declaration, without its semicolon. -/
def arrayTokens (name : List Char) (dims : List ℕ) (init : List Token) : List Token :=
  constBytes ++ .word name :: (dimTokens dims ++ .punct '=' :: init)

variable {word} (hword : ∀ b, integerConstant (word b) = some b.toNat) {stack : List (List Init)}
  {items : List Init} {bytes : List UInt8} {rows : List (List UInt8)} {rest : List Token}
include hword

/-- Words and commas are read as further elements of the list that is open. -/
theorem readInit_bytes : readInit (items :: stack) false (byteTokens word bytes ++ rest) =
    readInit ((items ++ bytes.map fun b => .int b.toNat) :: stack) false rest := by
  induction bytes generalizing items with
  | nil => simp [byteTokens]
  | cons b bytes ih =>
    rw [byteTokens, List.flatMap_cons, List.append_assoc, List.cons_append, List.cons_append,
      readInit, hword, Option.bind_some, List.nil_append, readInit, ← byteTokens, ih]
    simp

/-- A row in its braces is read as its bytes. -/
theorem readInit_row : readInit [] false (rowTokens word bytes ++ rest) =
    some (.ofBytes bytes, rest) := by
  rw [rowTokens, List.cons_append, readInit, List.append_assoc, readInit_bytes hword]
  rfl

/-- Rows and commas are read as further lists. -/
theorem readInit_rows :
    readInit (items :: stack) false (rows.flatMap (fun row => rowTokens word row ++ [.punct ',']) ++
      rest) = readInit ((items ++ rows.map Init.ofBytes) :: stack) false rest := by
  induction rows generalizing items with
  | nil => simp
  | cons row rows ih =>
    have hrow (rest : List Token) : rowTokens word row ++ [.punct ','] ++ rest =
        .punct '{' :: (byteTokens word row ++ .punct '}' :: .punct ',' :: rest) := by
      simp [rowTokens]
    -- A list within the list, and the comma behind it.
    rw [List.flatMap_cons, List.append_assoc, hrow, readInit, readInit_bytes hword, List.nil_append,
      readInit, readInit, ih]
    simp [Init.ofBytes]

/-- A table in its braces is read as its rows. -/
theorem readInit_table : readInit [] false (tableTokens word rows) =
    some (.list (rows.map Init.ofBytes), []) := by
  rw [tableTokens, readInit, readInit_rows hword]
  rfl

end Tokens

/-- The dimensions are read, up to what is none. -/
theorem readDims_dimTokens {toks : List Token} (dims : List ℕ) (h : readDims toks = ([], toks)) :
    readDims (dimTokens dims ++ toks) = (dims, toks) := by
  induction dims with
  | nil => exact h
  | cons n dims ih =>
    have hcons : dimTokens (n :: dims) ++ toks = .punct '[' :: .word (Nat.toDigits 10 n) ::
        .punct ']' :: (dimTokens dims ++ toks) := by
      simp [dimTokens]
    rw [hcons, readDims]
    simp only [integerConstant_toDigits, ih]

/-- A declaration is read. -/
theorem readArray_arrayTokens (name : List Char) (dims : List ℕ) {toks : List Token} {init : Init}
    (h : readInit [] false toks = some (init, [])) :
    readArray (arrayTokens name dims toks) = some ⟨name, dims, init⟩ := by
  have hdims : readDims (dimTokens dims ++ .punct '=' :: toks) = (dims, .punct '=' :: toks) :=
    readDims_dimTokens dims rfl
  have htake : (arrayTokens name dims toks).take 3 = constBytes := rfl
  have hdrop : (arrayTokens name dims toks).drop 3 =
    .word name :: (dimTokens dims ++ .punct '=' :: toks) := rfl
  rw [readArray, if_pos htake, hdrop]
  simp only [hdims, h]

/-- A semicolon ends a declaration. -/
theorem declared_append {toks rest : List Token} (h : .punct ';' ∉ toks) :
    declared (toks ++ .punct ';' :: rest) = (readArray toks).toList ++ declared rest := by
  rw [declared, List.splitOn_append_cons_self, List.filterMap_append, List.splitOn_eq_singleton h,
    declared]
  rfl

/-- A row has no semicolon. -/
theorem semicolon_not_mem_rowTokens (word : UInt8 → List Char) (bytes : List UInt8) :
    .punct ';' ∉ rowTokens word bytes := by
  simp [rowTokens, byteTokens]

/-- Neither has a table. -/
theorem semicolon_not_mem_tableTokens (word : UInt8 → List Char) (rows : List (List UInt8)) :
    .punct ';' ∉ tableTokens word rows := by
  simp [tableTokens, rowTokens, byteTokens]

/-- A declaration is read up to its semicolon. -/
theorem declared_arrayTokens (name : List Char) (dims : List ℕ) {toks : List Token} {init : Init}
    (hsemi : .punct ';' ∉ toks) (h : readInit [] false toks = some (init, [])) (rest : List Token) :
    declared (arrayTokens name dims toks ++ .punct ';' :: rest) =
      ⟨name, dims, init⟩ :: declared rest := by
  have hnot : .punct ';' ∉ arrayTokens name dims toks := by
    simp [arrayTokens, constBytes, dimTokens, hsemi]
  rw [declared_append hnot, readArray_arrayTokens name dims h]
  rfl

/-! ## Lines -/

section Lines

variable {x : List Char} {toks : List Token} {lines lines' : List (List Char)}

/-- The tokens of lines after lines. -/
theorem codeTokens_append (hx : Complete x) (y : List Char) :
    codeTokens (x ++ '\n' :: y) = codeTokens x ++ codeTokens y := by
  rw [codeTokens, logicalLines_append hx, List.filter_append, List.flatten_append, codeTokens,
    codeTokens]

/-- The empty text is complete. -/
theorem complete_nil : Complete [] := ⟨rfl, rfl⟩

/-- What is read of complete lines is read line by line. -/
theorem lines_read (h : ∀ x ∈ lines, Complete x) : Complete (['\n'].intercalate lines) ∧
    macros (['\n'].intercalate lines) = lines.flatMap macros ∧
    codeTokens (['\n'].intercalate lines) = lines.flatMap codeTokens := by
  induction lines with
  | nil => exact ⟨complete_nil, rfl, rfl⟩
  | cons x lines ih =>
    rw [List.forall_mem_cons] at h
    obtain ⟨hcomplete, hmacros, hcode⟩ := ih h.2
    cases lines with
    | nil => simpa using h.1
    | cons y lines =>
      rw [List.intercalate_cons_cons, List.append_assoc, List.singleton_append]
      refine ⟨h.1.lineBreak hcomplete, ?_, ?_⟩
      · rw [macros_append h.1, hmacros]
        exact List.flatMap_cons.symm
      · rw [codeTokens_append h.1, hcode]
        exact List.flatMap_cons.symm

/-- A line of code. -/
theorem Reads.code (h : Reads x toks) (hdir : isDirective toks = false) :
    Complete x ∧ macros x = [] ∧ codeTokens x = toks := by
  refine ⟨h.complete, ?_, ?_⟩
  · have hdefined : defined toks = none := by
      unfold defined
      split
      · cases hdir
      · rfl
    rw [macros, h.logicalLines, List.filterMap_cons_none hdefined, List.filterMap_nil]
  · rw [codeTokens, h.logicalLines]
    simp [hdir]

/-- A directive. -/
theorem Reads.directive (h : Reads x toks) (hdir : isDirective toks = true) :
    Complete x ∧ macros x = (defined toks).toList ∧ codeTokens x = [] := by
  refine ⟨h.complete, ?_, ?_⟩
  · rw [macros, h.logicalLines]
    cases hdefined : defined toks <;> simp [hdefined]
  · rw [codeTokens, h.logicalLines]
    simp [hdir]

/-! The text of a declaration. -/

/-- Two parts with a space between them. -/
theorem Reads.space {x' : List Char} {toks' : List Token} (h : Reads x toks) (h' : Reads x' toks') :
    Reads (x ++ ' ' :: x') (toks ++ toks') :=
  Reads.separated (g := [' ']) (s := [' ']) (.plain (by decide)) (by simp [isHSpace]) (by simp) h h'

/-- A punctuator, with something behind it. -/
theorem Reads.punct_cons (c : Char) (h : Reads x toks) (hword : isWordChar c = false := by decide)
    (hplain : isPlain c = true := by decide) (hslash : c ≠ '\\' := by decide)
    (hspace : isHSpace c = false ∧ c ≠ '\n' := by decide) : Reads (c :: x) (.punct c :: toks) :=
  Reads.nil.punct hword hplain hslash hspace h

/-- Bytes with a comma behind each. -/
theorem reads_bytes {word : UInt8 → List Char} (hne : ∀ b, word b ≠ [])
    (hword : ∀ b, ∀ c ∈ word b, isWordChar c = true) (bytes : List UInt8) (h : Reads x toks) :
    Reads ((bytes.flatMap fun b => word b ++ [',']) ++ x) (byteTokens word bytes ++ toks) := by
  induction bytes with
  | nil => exact h
  | cons b bytes ih =>
    have hbyte := (Reads.word (hne b) (hword b)).punct (c := ',') (by decide)
      (by decide) (by decide)
      (by decide) ih
    simpa [byteTokens] using hbyte

/-- The dimensions of an array. -/
theorem reads_dims (dims : List ℕ) (h : Reads x toks) {x' : List Char} {toks' : List Token}
    (h' : Reads x' toks') : Reads (x ++ (dims.flatMap fun n => '[' :: Nat.toDigits 10 n ++ [']']) ++
      ' ' :: x') (toks ++ dimTokens dims ++ toks') := by
  induction dims generalizing x toks with
  | nil => simpa [dimTokens] using h.space h'
  | cons n dims ih =>
    have hdigits : Reads (Nat.toDigits 10 n) [.word (Nat.toDigits 10 n)] :=
      .word Nat.toDigits_ne_nil (isWordChar_toDigits n)
    have hclose := hdigits.punct (c := ']') (by decide) (by decide) (by decide)
      (by decide) Reads.nil
    have hdim := h.punct (c := '[') (by decide) (by decide) (by decide) (by decide) hclose
    simpa [dimTokens] using ih hdim

/-- The text of a declaration before its initialiser. -/
def arrayHead (name : List Char) (dims : List ℕ) : List Char :=
  "static const uint8_t ".toList ++ name ++
    (dims.flatMap fun n => '[' :: Nat.toDigits 10 n ++ [']']) ++
    " = ".toList

/-- The head of an array, and what is read as its initialiser. -/
theorem reads_array {name : List Char} (hne : name ≠ []) (hname : ∀ c ∈ name, isWordChar c = true)
    (dims : List ℕ) (h : Reads x toks) :
    Reads (arrayHead name dims ++ x) (arrayTokens name dims toks) := by
  have hstatic : Reads ['s', 't', 'a', 't', 'i', 'c'] [.word ['s', 't', 'a', 't', 'i', 'c']] :=
    .word (by decide) (forall_mem_of_all (by decide))
  have hconst : Reads ['c', 'o', 'n', 's', 't'] [.word ['c', 'o', 'n', 's', 't']] :=
    .word (by decide) (forall_mem_of_all (by decide))
  have htype : Reads ['u', 'i', 'n', 't', '8', '_', 't']
    [.word ['u', 'i', 'n', 't', '8', '_', 't']] :=
    .word (by decide) (forall_mem_of_all (by decide))
  have hstart := hstatic.space (hconst.space (htype.space (.word hne hname)))
  have hinit : Reads (['='] ++ ' ' :: x) ([.punct '='] ++ toks) :=
    (Reads.punct_cons '=' .nil).space h
  have hall := reads_dims dims hstart hinit
  unfold arrayHead arrayTokens constBytes
  simp only [String.reduceToList, List.append_assoc, List.cons_append, List.nil_append] at hall ⊢
  exact hall

/-! A string at the end of a line. -/

section Quoted

variable {v : List Char} (hv : ∀ c ∈ v, c ≠ '"' ∧ c ≠ '\\' ∧ c ≠ '\n')
include hv

/-- Within quotes there is no comment. -/
theorem uncomment_quoted : uncomment.state .code (' ' :: '"' :: (v ++ ['"'])) = .code ∧
    uncomment.emit .code (' ' :: '"' :: (v ++ ['"'])) = ' ' :: '"' :: (v ++ ['"']) := by
  have hstep : ∀ c ∈ v, uncomment.step (.quoted '"') c = (.quoted '"', [c]) := fun c hc => by
    simp [uncomment, hv c hc]
  obtain ⟨hstate, hemit⟩ := uncomment.read_of_forall (.quoted '"') (fun c => [c]) v hstep
  have hopen : uncomment.step .code ' ' = (.code, [' ']) ∧
      uncomment.step .code '"' = (.quoted '"', ['"']) := ⟨rfl, rfl⟩
  have hclose : uncomment.step (.quoted '"') '"' = (.code, ['"']) := rfl
  rw [Transducer.state, Transducer.state, Transducer.emit, Transducer.emit, hopen.1, hopen.2,
    Transducer.state_append, Transducer.emit_append, hstate, hemit]
  simp [Transducer.state, Transducer.emit, hclose]

/-- A string is one token. -/
theorem tokens_quoted : tokens (' ' :: '"' :: (v ++ ['"'])) = [.quoted '"' v] := by
  have hread (seen : List Char) : lex.state (.quoted '"' seen) v = .quoted '"' (seen ++ v) ∧
      lex.emit (.quoted '"' seen) v = [] := by
    induction v generalizing seen with
    | nil => simp [Transducer.state, Transducer.emit]
    | cons c v ih =>
      rw [List.forall_mem_cons] at hv
      have hstep : lex.step (.quoted '"' seen) c = (.quoted '"' (seen ++ [c]), []) := by
        simp [lex, hv.1]
      obtain ⟨hstate, hemit⟩ := ih hv.2 (seen ++ [c])
      rw [Transducer.state, Transducer.emit, hstep, hstate, hemit, List.append_assoc]
      exact ⟨rfl, rfl⟩
  have hspace : tokens (' ' :: '"' :: (v ++ ['"'])) = tokens ('"' :: (v ++ ['"'])) :=
    tokens_hspace (x := [' ']) (by simp [isHSpace])
  have hopen : lex.step .nothing '"' = (.quoted '"' [], []) := rfl
  rw [hspace, tokens, Transducer.run, Transducer.state, Transducer.emit, hopen,
    Transducer.state_append, Transducer.emit_append, (hread []).1, (hread []).2, List.nil_append]
  simp [Transducer.state, Transducer.emit, lex]

/-- A string behind tokens. -/
theorem Reads.quoted (h : Reads x toks) : Complete (x ++ ' ' :: '"' :: (v ++ ['"'])) ∧
    C.logicalLines (x ++ ' ' :: '"' :: (v ++ ['"'])) = [toks ++ [.quoted '"' v]] := by
  obtain ⟨y, hsplice, hplain, htokens⟩ := h
  have hslash : '\\' ∉ ' ' :: '"' :: (v ++ ['"']) := by
    intro hmem
    have hcases : '\\' ∈ v := by simpa using hmem
    exact (hv _ hcases).2.1 rfl
  obtain ⟨hstate, hemit⟩ := hsplice.append (.plain hslash)
  obtain ⟨hcode, hleft⟩ := uncomment_plain fun c hc => (hplain c hc).1
  obtain ⟨hcode', hleft'⟩ := uncomment_quoted hv
  have hcomplete : Complete (x ++ ' ' :: '"' :: (v ++ ['"'])) :=
    ⟨hstate, by rw [hemit, Transducer.state_append, hcode, hcode']⟩
  have hline : '\n' ∉ y ++ ' ' :: '"' :: (v ++ ['"']) := by
    intro hmem
    have hcases : '\n' ∈ y ∨ '\n' ∈ v := by simpa using hmem
    exact hcases.elim (fun h => (hplain _ h).2 rfl) fun h => (hv _ h).2.2 rfl
  refine ⟨hcomplete, ?_⟩
  rw [C.logicalLines, preprocess_complete hcomplete, hemit, Transducer.emit_append, hcode, hleft,
    hleft', List.splitOn_eq_singleton hline, List.map_singleton, htokens _ (by simp [isWordChar]),
    tokens_quoted hv]

end Quoted

/-! A comment of several lines, with an asterisk at the beginning of each. -/

/-- What is written while lines are joined has been read. -/
theorem mem_splice (s : Option (List Char)) (x : List Char) {p : Char → Prop} (hp : p '\\')
    (hs : ∀ b ∈ s.getD [], p b) (hx : ∀ c ∈ x, p c) :
    (∀ c ∈ splice.emit s x, p c) ∧ ∀ b ∈ (splice.state s x).getD [], p b := by
  induction x generalizing s with
  | nil => exact ⟨List.forall_mem_nil _, hs⟩
  | cons c x ih =>
    rw [List.forall_mem_cons] at hx
    have hstep : (∀ d ∈ (splice.step s c).2, p d) ∧ ∀ b ∈ (splice.step s c).1.getD [], p b := by
      cases s with
      | none =>
        simp only [splice]
        split <;> simp [hx.1]
      | some blanks =>
        have hblanks : ∀ b ∈ blanks, p b := hs
        simp only [splice]
        split_ifs <;> simp_all [or_imp, forall_and]
    obtain ⟨hemit, hstate⟩ := ih _ hstep.2 hx.2
    exact ⟨List.forall_mem_append.mpr ⟨hstep.1, hemit⟩, hstate⟩

/-- Between complete lines, a text takes the reader of comments from one mode to another, and this
is left of it. -/
structure Hides (x : List Char) (mode mode' : Mode) (left : List Char) : Prop where
  splice : splice.state none x = none
  state : uncomment.state mode (C.splice.emit none x) = mode'
  emit : uncomment.emit mode (C.splice.emit none x) = left

/-- Hidden text after hidden text. -/
theorem Hides.append {y left left' : List Char} {mode mode' mode'' : Mode}
    (hx : Hides x mode mode' left) (hy : Hides y mode' mode'' left') :
    Hides (x ++ y) mode mode'' (left ++ left') := by
  refine ⟨?_, ?_, ?_⟩
  · rw [Transducer.state_append, hx.splice, hy.splice]
  · rw [Transducer.emit_append, hx.splice, Transducer.state_append, hx.state, hy.state]
  · rw [Transducer.emit_append, hx.splice, Transducer.emit_append, hx.state, hx.emit, hy.emit]

/-- The rest of a line within a comment, where it does not end the comment. -/
theorem hides_rest (h : '*' ∉ x) : Hides (x ++ ['\n']) .blockComment .blockComment [] := by
  have hx : ∀ c ∈ x ++ ['\n'], c ≠ '*' := by
    rintro c hc rfl
    simp [h] at hc
  obtain ⟨hemit, -⟩ := mem_splice none (x ++ ['\n']) (p := (· ≠ '*')) (by decide)
    (List.forall_mem_nil _) hx
  have hstep : ∀ c ∈ splice.emit none (x ++ ['\n']),
      uncomment.step .blockComment c = (.blockComment, []) := fun c hc => by
    simp [uncomment, hemit c hc]
  have hread := uncomment.read_of_forall .blockComment (fun _ => []) _ hstep
  refine ⟨?_, hread.1, by rw [hread.2]; simp⟩
  -- The line break ends the line, or the continuation of it.
  rw [Transducer.state_append]
  cases splice.state none x <;> rfl

/-- A line of a comment. -/
def commentLine (rest : List Char) : List Char := ' ' :: '*' :: rest

/-- The comment is not ended by what stands behind the asterisk. -/
def StaysOpen (rest : List Char) : Prop := rest.head?.all (· = ' ') = true ∧ '*' ∉ rest

instance (rest : List Char) : Decidable (StaysOpen rest) := by
  unfold StaysOpen
  infer_instance

/-- A line of a comment that does not end it. -/
theorem hides_commentLine {rest : List Char} (h : StaysOpen rest) :
    Hides (commentLine rest ++ ['\n']) .blockComment .blockComment [] := by
  obtain ⟨hhead, hrest⟩ := h
  cases rest with
  | nil => exact ⟨rfl, rfl, rfl⟩
  | cons c rest =>
    obtain rfl : c = ' ' := by simpa using hhead
    have hstart : Hides [' ', '*', ' '] .blockComment .blockComment [] := ⟨rfl, rfl, rfl⟩
    exact hstart.append (hides_rest fun hmem => hrest (List.mem_cons_of_mem _ hmem))

/-- A comment in front of the code. -/
theorem comment_read {rests : List (List Char)} (h : ∀ rest ∈ rests, StaysOpen rest) :
    let x := ['\n'].intercalate (['/', '*'] :: rests.map commentLine ++ [[' ', '*', '/']])
    Complete x ∧ macros x = [] ∧ codeTokens x = [] := by
  intro x
  -- No line between the first and the last ends the comment.
  have hlines : Hides (unlines (rests.map commentLine)) .blockComment .blockComment [] := by
    clear x
    induction rests with
    | nil => exact ⟨rfl, rfl, rfl⟩
    | cons rest rests ih =>
      rw [List.forall_mem_cons] at h
      exact (hides_commentLine h.1).append (ih h.2)
  -- A comment counts as one blank.
  have hx : Hides x .code .code [' '] := by
    have hfirst : Hides ['/', '*', '\n'] .code .blockComment [] := ⟨rfl, rfl, rfl⟩
    have hlast : Hides [' ', '*', '/'] .blockComment .code [' '] := ⟨rfl, rfl, rfl⟩
    have heq : x = ['/', '*', '\n'] ++ (unlines (rests.map commentLine) ++ [' ', '*', '/']) := by
      rw [show x = _ from intercalate_concat _ _]
      simp [unlines]
    rw [heq]
    exact hfirst.append (hlines.append hlast)
  have hcomplete : Complete x := ⟨hx.splice, hx.state⟩
  have hlogical : logicalLines x = [[]] := by
    rw [logicalLines, preprocess_complete hcomplete, hx.emit]
    rfl
  exact ⟨hcomplete, by rw [macros, hlogical]; rfl, by rw [codeTokens, hlogical]; rfl⟩

/-- The lines are complete, and define these macros and declare these arrays. -/
structure Declares (lines : List (List Char)) (ms : List (List Char × List Token))
    (as : List ArrayDef) : Prop where
  complete : ∀ x ∈ lines, Complete x
  macros : lines.flatMap macros = ms
  /-- The last declaration of the lines is complete. -/
  arrays : ∀ rest, declared (lines.flatMap codeTokens ++ rest) = as ++ declared rest

namespace Declares

variable {ms ms' : List (List Char × List Token)} {as as' : List ArrayDef}

/-- No lines declare nothing. -/
theorem nil : Declares [] [] [] := ⟨List.forall_mem_nil _, rfl, fun _ => rfl⟩

/-- Lines after lines. -/
theorem append (h : Declares lines ms as) (h' : Declares lines' ms' as') :
    Declares (lines ++ lines') (ms ++ ms') (as ++ as') := by
  refine ⟨List.forall_mem_append.mpr ⟨h.complete, h'.complete⟩, ?_, fun rest => ?_⟩
  · rw [List.flatMap_append, h.macros, h'.macros]
  · rw [List.flatMap_append, List.append_assoc, h.arrays, h'.arrays, List.append_assoc]

/-- A line before lines. -/
theorem cons (h : Declares [x] ms as) (h' : Declares lines ms' as') :
    Declares (x :: lines) (ms ++ ms') (as ++ as') := h.append h'

/-- Lines that are made for the elements of a list. -/
theorem flatten {ι : Type} {l : List ι} {liness : List (List (List Char))}
    {m : ι → List (List Char × List Token)} {a : ι → List ArrayDef}
    (h : List.Forall₂ (fun i lines => Declares lines (m i) (a i)) l liness) :
    Declares liness.flatten (l.flatMap m) (l.flatMap a) := by
  induction h with
  | nil => exact nil
  | cons h _ ih => exact h.append ih

/-- A line without code. -/
theorem line (h : Complete x ∧ C.macros x = ms ∧ codeTokens x = []) : Declares [x] ms [] := by
  obtain ⟨hcomplete, rfl, hcode⟩ := h
  refine ⟨by simpa using hcomplete, by simp, fun rest => ?_⟩
  rw [List.flatMap_singleton, hcode]
  rfl

/-- An empty line. -/
theorem blank : Declares [[]] [] [] := line ⟨complete_nil, rfl, rfl⟩

/-- A declaration. -/
theorem array {a : ArrayDef}
    (h : Complete x ∧ C.macros x = [] ∧ codeTokens x = toks ++ [.punct ';'])
    (ha : ∀ rest, declared (toks ++ .punct ';' :: rest) = a :: declared rest) :
    Declares [x] [] [a] := by
  obtain ⟨hcomplete, hmacros, hcode⟩ := h
  refine ⟨by simpa using hcomplete, by simpa using hmacros, fun rest => ?_⟩
  rw [List.flatMap_singleton, hcode, List.append_assoc, List.singleton_append, ha]
  rfl

/-- What is read of the text. -/
theorem text (h : Declares lines ms as) : C.macros (['\n'].intercalate lines) = ms ∧
    C.arrays (['\n'].intercalate lines) = as := by
  obtain ⟨-, hmacros, hcode⟩ := lines_read h.complete
  have hnil : declared [] = [] := rfl
  have harrays := h.arrays []
  rw [List.append_nil, hnil, List.append_nil] at harrays
  exact ⟨hmacros.trans h.macros, by rw [C.arrays, hcode, harrays]⟩

end Declares

end Lines

end Text.C
