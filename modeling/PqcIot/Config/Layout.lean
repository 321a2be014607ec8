import PqcIot.Text.C

/-!
# A list of bytes in a header

The definition of a macro as a list of bytes, on one line or over any number of continued lines,
within any other text. `definitions_text` says what the C compiler makes of it.
-/

namespace PqcIot.DeviceConfig

open Text Text.C

/-- White space and ends of continued lines between the tokens of a definition. -/
inductive Gap : List Char → Prop
  | nil : Gap []
  | space {c : Char} {gap : List Char} (hc : isHSpace c = true) (hgap : Gap gap) : Gap (c :: gap)
  | lineEnd {blanks gap : List Char} (hblanks : ∀ b ∈ blanks, isHSpace b = true) (hgap : Gap gap) :
    Gap ('\\' :: (blanks ++ '\n' :: gap))

theorem Gap.append {x y : List Char} (hx : Gap x) (hy : Gap y) : Gap (x ++ y) := by
  induction hx with
  | nil => exact hy
  | space hc _ ih => exact ih.space hc
  | lineEnd hblanks _ ih =>
    rw [List.cons_append, List.append_assoc, List.cons_append]
    exact ih.lineEnd hblanks

/-- A byte literal, with what stands around it. -/
structure Item where
  left : List Char
  word : List Char
  right : List Char
  value : UInt8
  gap_left : Gap left
  gap_right : Gap right
  isWordChar : ∀ c ∈ word, isWordChar c = true
  integerConstant : integerConstant word = some value.toNat

/-- The text of an item. -/
def Item.text (item : Item) : List Char := item.left ++ item.word ++ item.right

/-- The definition of a macro as a list of bytes. -/
structure ByteList where
  name : List Char
  /-- Before `#`. -/
  indent : List Char
  /-- Behind `#`. -/
  hashGap : List Char
  /-- Before, at and behind some white space between `define` and the name. -/
  sepLeft : List Char
  sep : Char
  sepRight : List Char
  nameGap : List Char
  items : List Item
  /-- What stands behind a comma at the end of the list. -/
  trailing : Option (List Char)
  name_ne_nil : name ≠ []
  isWordChar_name : ∀ c ∈ name, C.isWordChar c = true
  gap_indent : Gap indent
  gap_hashGap : Gap hashGap
  gap_sepLeft : Gap sepLeft
  isHSpace_sep : isHSpace sep = true
  gap_sepRight : Gap sepRight
  gap_nameGap : Gap nameGap
  items_ne_nil : items ≠ []
  gap_trailing : ∀ gap ∈ trailing, Gap gap

namespace ByteList

variable (d : ByteList)

/-- The bytes of the list. -/
def bytes : List UInt8 := d.items.map Item.value

/-- What stands between the braces. -/
def inner : List Char := [','].intercalate (d.items.map Item.text ++ d.trailing.toList)

/-- What stands between the name and the end of the list. -/
def body : List Char := d.nameGap ++ '{' :: (d.inner ++ ['}'])

/-- What stands between `#` and the end of the list. -/
def directive : List Char :=
  d.hashGap ++ "define".toList ++ (d.sepLeft ++ d.sep :: d.sepRight) ++ d.name ++ d.body

/-- The text of the definition. -/
def text : List Char := d.indent ++ '#' :: d.directive

/-! ## Tokens -/

/-- The tokens of what stands between the braces. -/
def innerTokens : List Token :=
  [.punct ','].intercalate (d.items.map (fun item => [.word item.word]) ++
    d.trailing.toList.map fun _ => [])

/-- The tokens for which the macro stands. -/
def bodyTokens : List Token := .punct '{' :: (d.innerTokens ++ [.punct '}'])

end ByteList

/-- Between tokens, continued lines are white space. -/
theorem Gap.spliced {gap : List Char} (h : Gap gap) :
    ∃ s, Spliced gap s ∧ ∀ c ∈ s, isHSpace c = true := by
  induction h with
  | nil => exact ⟨[], ⟨rfl, rfl⟩, by simp⟩
  | @space c gap hc _ ih =>
    obtain ⟨s, hsplice, hs⟩ := ih
    have hone : Spliced [c] [c] := .plain (by
      rcases isHSpace_cases hc with rfl | rfl | rfl | rfl <;> decide)
    exact ⟨c :: s, hone.append hsplice, List.forall_mem_cons.mpr ⟨hc, hs⟩⟩
  | lineEnd hblanks _ ih =>
    obtain ⟨s, hsplice, hs⟩ := ih
    have hend := (Spliced.lineEnd hblanks).append hsplice
    rw [List.nil_append] at hend
    exact ⟨s, by simpa using hend, hs⟩

theorem integerConstant_nil : integerConstant [] = none := rfl

theorem Item.word_ne_nil (item : Item) : item.word ≠ [] := by
  intro h
  have hvalue := item.integerConstant
  rw [h, integerConstant_nil] at hvalue
  cases hvalue

/-- An item is its word. -/
theorem Item.reads (item : Item) : Reads item.text [.word item.word] := by
  obtain ⟨s, hleft, hs⟩ := item.gap_left.spliced
  obtain ⟨s', hright, hs'⟩ := item.gap_right.spliced
  exact ((Reads.word item.word_ne_nil item.isWordChar).space_append hleft
    hs).append_space hright hs'

/-- Parts with commas between them. -/
theorem reads_intercalate (parts : List (List Char × List Token))
    (h : ∀ part ∈ parts, Reads part.1 part.2) :
    Reads ([','].intercalate (parts.map (·.1))) ([.punct ','].intercalate (parts.map (·.2))) := by
  induction parts with
  | nil => exact .nil
  | cons part parts ih =>
    have hrest := ih fun part' h' => h part' (List.mem_cons_of_mem part h')
    have hpart := h part List.mem_cons_self
    cases parts with
    | nil => simpa using hpart
    | cons part' parts =>
      have hboth := hpart.punct (c := ',') (by decide) (by decide) (by decide) (by decide) hrest
      simpa [List.intercalate_cons_cons] using hboth

namespace ByteList

variable (d : ByteList)

theorem reads_inner : Reads d.inner d.innerTokens := by
  have hparts := reads_intercalate (d.items.map (fun item => (item.text, [.word item.word])) ++
    d.trailing.toList.map fun gap => (gap, [])) ?_
  · simpa [inner, innerTokens, Function.comp_def] using hparts
  · intro part hpart
    rcases List.mem_append.mp hpart with h | h
    · obtain ⟨item, -, rfl⟩ := List.mem_map.mp h
      exact item.reads
    · obtain ⟨gap, hgap, rfl⟩ := List.mem_map.mp h
      obtain ⟨s, hsplice, hs⟩ := (d.gap_trailing gap (Option.mem_toList.mp hgap)).spliced
      have hnil := Reads.nil.space_append hsplice hs
      rwa [List.append_nil] at hnil

/-- The definition is read as such. -/
theorem reads_text :
    Reads d.text (.punct '#' :: .word "define".toList :: .word d.name :: d.bodyTokens) := by
  -- Without its continued line breaks, each gap is white space.
  obtain ⟨s₁, hindent, hs₁⟩ := d.gap_indent.spliced
  obtain ⟨s₂, hhash, hs₂⟩ := d.gap_hashGap.spliced
  obtain ⟨s₃, hleft, hs₃⟩ := d.gap_sepLeft.spliced
  obtain ⟨s₄, hright, hs₄⟩ := d.gap_sepRight.spliced
  obtain ⟨s₅, hname, hs₅⟩ := d.gap_nameGap.spliced
  have hbody : Reads (d.name ++ d.body) (.word d.name :: d.bodyTokens) := by
    have hbraces := d.reads_inner.punct (c := '}') (by decide) (by decide) (by decide)
      (by decide) .nil
    have hboth := ((Reads.word d.name_ne_nil d.isWordChar_name).append_space hname
      hs₅).punct (c := '{')
      (by decide) (by decide) (by decide) (by decide) hbraces
    simpa [body, bodyTokens] using hboth
  have hsep : Spliced (d.sepLeft ++ d.sep :: d.sepRight) (s₃ ++ d.sep :: s₄) := by
    have hone : Spliced [d.sep] [d.sep] := .plain (by
      rcases isHSpace_cases d.isHSpace_sep with h | h | h | h <;> rw [h] <;> decide)
    exact hleft.append (hone.append hright)
  have hspace : ∀ c ∈ s₃ ++ d.sep :: s₄, isHSpace c = true := by
    intro c hc
    rcases List.mem_append.mp hc with hc | hc
    · exact hs₃ c hc
    · rcases List.mem_cons.mp hc with rfl | hc
      · exact d.isHSpace_sep
      · exact hs₄ c hc
  have hdefine : Reads "define".toList [.word "define".toList] :=
    .word (by decide) (forall_mem_of_all (by decide))
  have hdirective := (hdefine.separated hsep hspace (by simp) hbody).space_append hhash hs₂
  have hindented := (Reads.nil.space_append hindent hs₁).punct (c := '#') (by decide) (by decide)
    (by decide) (by decide) hdirective
  simpa [text, directive] using hindented

/-- The items within the braces are read as the values of a list. -/
theorem readInit_items {items : List Item} (hne : items ≠ []) (trailing : Option (List Char))
    (seen : List Init) (rest : List Token) :
    readInit [seen] false ([.punct ','].intercalate (items.map (fun item => [.word item.word]) ++
      trailing.toList.map fun _ => []) ++ .punct '}' :: rest) =
      some (.list (seen ++ items.map fun item => .int item.value.toNat), rest) := by
  induction items generalizing seen with
  | nil => exact absurd rfl hne
  | cons item items ih =>
    cases items with
    | nil => cases trailing <;> simp [readInit, item.integerConstant]
    | cons item' items =>
      have hrest := ih (by simp) (seen ++ [.int item.value.toNat])
      simpa [readInit, item.integerConstant, List.intercalate_cons_cons] using hrest

/-- The macro stands for the bytes of the list. -/
theorem byteList_bodyTokens : byteList d.bodyTokens = some d.bytes := by
  have hread : readInit [] false d.bodyTokens =
      some (.list (d.items.map fun item => .int item.value.toNat), []) := by
    have hitems := readInit_items d.items_ne_nil d.trailing [] []
    rw [bodyTokens, innerTokens, readInit, hitems, List.nil_append]
  have hbytes (items : List Item) :
      (Init.list (items.map fun item => .int item.value.toNat)).bytes =
        some (items.map Item.value) := by
    induction items with
    | nil => rfl
    | cons item items ih =>
      rw [Init.bytes] at ih
      simp [Init.bytes, item.value.toNat_lt, ih]
  rw [byteList, hread]
  exact hbytes d.items

end ByteList

/-! ## The definition within a text -/

/-- Alone, the text defines the one macro. -/
theorem ByteList.definitions_text_self (d : ByteList) (name : List Char) :
    definitions d.text name = if d.name = name then [d.bodyTokens] else [] := by
  rw [definitions, macros, d.reads_text.logicalLines]
  by_cases h : d.name = name <;> simp [defined, h]

/-- What stands before the definition ends at the beginning of a logical line, outside of
comments. -/
structure LineStart (before : List Char) : Prop where
  splice : splice.state none before = none
  code : uncomment.state .code (C.splice.emit none before) = .code
  line : ∃ lines blanks, uncomment.emit .code (C.splice.emit none before) = lines ++ blanks ∧
    (lines = [] ∨ ∃ l, lines = l ++ ['\n']) ∧ ∀ c ∈ blanks, isHSpace c = true

/-- Nothing but white space and comments stands on the rest of the logical line. -/
def BlankLine (after : List Char) : Prop :=
  ∃ blanks lines, preprocess after = blanks ++ lines ∧ (∀ c ∈ blanks, isHSpace c = true) ∧
    (lines = [] ∨ ∃ l, lines = '\n' :: l)

theorem LineStart.of_complete {before : List Char} (h : Complete before) :
    LineStart (before ++ ['\n']) := by
  have hbreak : Complete ['\n'] := ⟨rfl, rfl⟩
  have hemit : C.splice.emit none (before ++ ['\n']) = C.splice.emit none before ++ ['\n'] := by
    rw [Transducer.emit_append, h.splice]
    rfl
  refine ⟨?_, ?_, uncomment.emit .code (C.splice.emit none before) ++ ['\n'], [], ?_, ?_, by simp⟩
  · rw [Transducer.state_append, h.splice]
    exact hbreak.splice
  · rw [hemit, Transducer.state_append, h.code]
    rfl
  · rw [hemit, Transducer.emit_append, h.code, List.append_nil]
    rfl
  · exact .inr ⟨_, rfl⟩

theorem BlankLine.of_lineBreak (after : List Char) : BlankLine ('\n' :: after) :=
  ⟨[], '\n' :: preprocess after, by rw [preprocess_lineBreak]; rfl, by simp, .inr ⟨_, rfl⟩⟩

/-- A part of a text that is read as one logical line. -/
theorem logicalLines_text {before x after : List Char} {toks : List Token}
    (hbefore : LineStart before)
    (hafter : BlankLine after) (hx : Reads x toks) :
    ∃ pre post, logicalLines (before ++ x ++ after) = pre ++ toks :: post := by
  obtain ⟨y, ⟨hstate, hemit⟩, hplain, htokens⟩ := hx
  obtain ⟨lines, blanks, hlines, hend, hblanks⟩ := hbefore.line
  obtain ⟨blanks', lines', hlines', hblanks', hend'⟩ := hafter
  obtain ⟨hcode, hout⟩ := uncomment_plain fun c hc => (hplain c hc).1
  have hpre : preprocess (before ++ x ++ after) = lines ++ (blanks ++ y ++ blanks') ++ lines' := by
    rw [preprocess, List.append_assoc, C.splice.run_append, hbefore.splice, C.splice.run_append,
      hstate, hemit, uncomment.run_append, hbefore.code, hlines, uncomment.run_append, hcode, hout]
    rw [preprocess] at hlines'
    rw [hlines']
    simp
  have htoks : tokens (blanks ++ y ++ blanks') = toks := by
    have hnil : tokens blanks' = [] := by
      have h := tokens_hspace (y := []) hblanks'
      rwa [List.append_nil] at h
    have hhead : ∀ c ∈ blanks'.head?, isWordChar c = false := fun c hc =>
      not_isWordChar_of_isHSpace (hblanks' c (List.mem_of_mem_head? hc))
    rw [List.append_assoc, tokens_hspace hblanks, htokens _ hhead, hnil, List.append_nil]
  have hline : '\n' ∉ blanks ++ y ++ blanks' := by
    simp only [List.mem_append, not_or]
    refine ⟨⟨fun h => ?_, fun h => (hplain _ h).2 rfl⟩, fun h => ?_⟩
    · cases hblanks _ h
    · cases hblanks' _ h
  -- The line is one of the lines of the text.
  have hsplit : ∃ pre post, (lines ++ (blanks ++ y ++ blanks') ++ lines').splitOn '\n' =
      pre ++ (blanks ++ y ++ blanks') :: post := by
    have hrest : ∃ post, ((blanks ++ y ++ blanks') ++ lines').splitOn '\n' =
        (blanks ++ y ++ blanks') :: post := by
      rcases hend' with rfl | ⟨l, rfl⟩
      · exact ⟨[], by rw [List.append_nil, List.splitOn_eq_singleton hline]⟩
      · exact ⟨l.splitOn '\n', by
          rw [List.splitOn_append_cons_self, List.splitOn_eq_singleton hline]; rfl⟩
    obtain ⟨post, hpost⟩ := hrest
    rcases hend with rfl | ⟨l, rfl⟩
    · exact ⟨[], post, by rw [List.nil_append, hpost]; rfl⟩
    · exact ⟨l.splitOn '\n', post, by
        rw [List.append_assoc, List.append_assoc, List.singleton_append,
          List.splitOn_append_cons_self, hpost]⟩
  obtain ⟨pre, post, hsplit⟩ := hsplit
  refine ⟨pre.map tokens, post.map tokens, ?_⟩
  rw [logicalLines, hpre, hsplit, List.map_append, List.map_cons, htoks]

/-- The C compiler puts the bytes of the list into the macro, where the macro is defined once. -/
theorem definitions_text {before after : List Char} (d : ByteList) (hbefore : LineStart before)
    (hafter : BlankLine after)
    (honce : (definitions (before ++ d.text ++ after) d.name).length = 1) :
    definitions (before ++ d.text ++ after) d.name = [d.bodyTokens] := by
  obtain ⟨pre, post, hlines⟩ := logicalLines_text hbefore hafter d.reads_text
  have hmem : d.bodyTokens ∈ definitions (before ++ d.text ++ after) d.name := by
    simp only [definitions, macros, hlines, List.mem_map, List.mem_filter, List.mem_filterMap]
    refine ⟨(d.name, d.bodyTokens),
      ⟨⟨_, List.mem_append_right _ List.mem_cons_self, ?_⟩, by simp⟩, rfl⟩
    simp [defined]
  obtain ⟨toks, htoks⟩ := List.length_eq_one_iff.mp honce
  rw [htoks, List.mem_singleton] at hmem
  rw [htoks, hmem]

end PqcIot.DeviceConfig
