import PqcIot.Effects.Results
import PqcIot.Testing.KatHeader

/-!
# What C reads of the header

The macros and the arrays that the header of `KatHeader.main` defines: a count for each parameter
set and function that has rows, and an array for each of its columns (`main_read`).
-/

namespace PqcIot.KatHeader

open Effects Text Text.C

/-! ## Tables -/

theorem hexChars_singleton (b : UInt8) :
    hexChars [b] = [digitChar (b.toNat / 16), digitChar (b.toNat % 16)] := rfl

/-- The digits of a byte are digits. -/
theorem digitValue_hexChars (b : UInt8) :
    digitValue (digitChar (b.toNat / 16)) = some (b.toNat / 16) ∧
      digitValue (digitChar (b.toNat % 16)) = some (b.toNat % 16) := by
  have hlt : b.toNat < 256 := b.toNat_lt
  exact ⟨digitValue_digitChar (by omega), digitValue_digitChar (Nat.mod_lt _ (by decide))⟩

/-- The text of a byte is a constant with its value. -/
theorem integerConstant_byteText (b : UInt8) : integerConstant (byteText b) = some b.toNat := by
  obtain ⟨hhi, hlo⟩ := digitValue_hexChars b
  rw [byteText, hexChars_singleton, integerConstant_pair hhi hlo, Nat.div_add_mod]

/-- It is one word. -/
theorem isWordChar_byteText (b : UInt8) : ∀ c ∈ byteText b, isWordChar c = true := by
  obtain ⟨hhi, hlo⟩ := digitValue_hexChars b
  rw [byteText, hexChars_singleton]
  simp only [List.forall_mem_cons, List.not_mem_nil, false_imp_iff, implies_true, and_true]
  exact ⟨by decide, by decide, (isWordChar_of_digitValue hhi).1, (isWordChar_of_digitValue hlo).1⟩

/-- Lines of sixteen bytes. -/
theorem flatMap_chunks (bytes : List UInt8) (start count : ℕ) :
    ((List.range' start count 16).flatMap fun i => (bytes.drop i).take 16) =
      (bytes.drop start).take (16 * count) := by
  induction count generalizing start with
  | zero => simp
  | succ count ih =>
    rw [List.range'_succ, List.flatMap_cons, ih, Nat.mul_succ, Nat.add_comm (16 * count),
      List.take_add, List.drop_drop]

/-- Bytes on a line. -/
theorem chunk_read (bytes : List UInt8) :
    let x := "    ".toList ++ bytes.flatMap fun b => byteText b ++ [',']
    Complete x ∧ macros x = [] ∧ codeTokens x = byteTokens byteText bytes := by
  have hne : ∀ b, byteText b ≠ [] := by simp [byteText]
  have hreads := reads_bytes hne isWordChar_byteText bytes .nil
  rw [List.append_nil, List.append_nil] at hreads
  have hindent : ∀ c ∈ "    ".toList, isHSpace c = true := forall_mem_of_all (by decide)
  refine (hreads.space_append (.plain (by decide)) hindent).code ?_
  cases bytes <;> rfl

/-- The lines of a row are read as its bytes. -/
theorem rowBody_read {width : ℕ} {bytes : List UInt8} (h : bytes.length = width) :
    Complete (['\n'].intercalate (rowBody width bytes)) ∧
      macros (['\n'].intercalate (rowBody width bytes)) = [] ∧
        codeTokens (['\n'].intercalate (rowBody width bytes)) = byteTokens byteText bytes := by
  have hlines : ∀ x ∈ rowBody width bytes, Complete x := by
    rw [rowBody, List.forall_mem_map]
    exact fun i _ => (chunk_read _).1
  obtain ⟨hcomplete, hmacros, hcode⟩ := lines_read hlines
  have hchunks := flatMap_chunks bytes 0 ((width + 15) / 16)
  rw [List.drop_zero, List.take_of_length_le (by omega)] at hchunks
  refine ⟨hcomplete, hmacros.trans ?_, hcode.trans ?_⟩
  · rw [rowBody, List.flatMap_map, List.flatMap_eq_nil_iff]
    exact fun i _ => (chunk_read _).2.1
  · -- The chunks are the bytes.
    rw [rowBody, List.flatMap_map]
    simp only [(chunk_read _).2.2]
    calc
      _ = byteTokens byteText ((List.range' 0 ((width + 15) / 16) 16).flatMap
          fun i => (bytes.drop i).take 16) := by
        rw [byteTokens, List.flatMap_assoc]
        rfl
      _ = byteTokens byteText bytes := by rw [hchunks]

/-- A row is read as a list of its bytes. -/
theorem rowText_read {width : ℕ} {bytes : List UInt8} (h : bytes.length = width) :
    Complete (rowText width bytes) ∧ macros (rowText width bytes) = [] ∧
      codeTokens (rowText width bytes) = rowTokens byteText bytes ++ [.punct ','] := by
  have hindent : ∀ c ∈ [' ', ' '], isHSpace c = true := forall_mem_of_all (by decide)
  have hplain : Spliced [' ', ' '] [' ', ' '] := .plain (by decide)
  have hopen := ((Reads.punct_cons '{' .nil).space_append hplain hindent).code rfl
  have hclose := ((Reads.punct_cons '}' (Reads.punct_cons ',' .nil)).space_append hplain
    hindent).code rfl
  obtain ⟨hcomplete, hmacros, hcode⟩ := rowBody_read h
  -- The braces stand on lines of their own.
  have htext : rowText width bytes = ['\n'].intercalate
      [[' ', ' '] ++ ['{'], ['\n'].intercalate (rowBody width bytes),
        [' ', ' '] ++ ['}', ',']] := by
    unfold rowText
    simp only [String.reduceToList]
    rw [List.intercalate_cons_cons, List.intercalate_cons_cons, List.intercalate_singleton]
    simp only [List.append_assoc, List.cons_append, List.nil_append]
  have hlines : ∀ x ∈ [[' ', ' '] ++ ['{'], ['\n'].intercalate (rowBody width bytes),
      [' ', ' '] ++ ['}', ',']], Complete x := by
    simpa using ⟨hopen.1, hcomplete, hclose.1⟩
  obtain ⟨h1, h2, h3⟩ := lines_read hlines
  rw [htext]
  refine ⟨h1, h2.trans ?_, h3.trans ?_⟩
  · simp only [List.flatMap_cons, List.flatMap_nil, hopen.2.1, hmacros, hclose.2.1, List.append_nil]
  · simp only [List.flatMap_cons, List.flatMap_nil, hopen.2.2, hcode, hclose.2.2, rowTokens]
    simp

/-- The tokens of an array, continued. -/
theorem arrayTokens_append (name : List Char) (dims : List ℕ) (toks toks' : List Token) :
    arrayTokens name dims toks ++ toks' = arrayTokens name dims (toks ++ toks') := by
  simp [arrayTokens]

/-- The rows of a table have one length. -/
def SameLength (rows : List (List UInt8)) : Prop := ∀ r ∈ rows, ∀ r' ∈ rows, r.length = r'.length

/-- The arrays that are printed for some rows: none if there are none. -/
def rowsArrays (name : List Char) : List (List UInt8) → List ArrayDef
  | [] => []
  | first :: rows => [.ofRows name first.length (first :: rows)]

/-- Rows of one length can be printed. -/
theorem exists_cArray (name : List Char) {rows : List (List UInt8)} (h : SameLength rows) :
    ∃ text, cArray name rows = .ok text := by
  cases rows with
  | nil => exact ⟨[], rfl⟩
  | cons first rows =>
    have hany : ¬ ((first :: rows).any fun r => r.length != first.length) = true := by
      simpa using fun r hr => h r (List.mem_cons_of_mem _ hr) first List.mem_cons_self
    rw [cArray]
    dsimp only
    rw [if_neg hany]
    exact ⟨_, rfl⟩

/-- The byte of a verdict. -/
def flagByte (flag : Bool) : UInt8 := if flag then 1 else 0

/-- The arrays that are printed for some verdicts. -/
def flagArrays (name : List Char) (flags : List Bool) : List ArrayDef :=
  if flags = [] then [] else [.ofBytes name (flags.map flagByte)]

section Names

variable {name : List Char} (hne : name ≠ []) (hname : ∀ c ∈ name, isWordChar c = true)
include hne hname

/-- The text of a table of rows of the same width. -/
theorem table_read {width : ℕ} {rows : List (List UInt8)} (h : ∀ r ∈ rows, r.length = width) :
    let x := ['\n'].intercalate ((arrayHead name [rows.length, width] ++ ['{']) ::
      rows.map (rowText width) ++ [['}', ';', '\n']])
    Complete x ∧ macros x = [] ∧
      codeTokens x = arrayTokens name [rows.length, width] (tableTokens byteText rows) ++
        [.punct ';'] := by
  intro x
  -- The text line by line, with the line break at its end as one more line.
  set lines := (arrayHead name [rows.length, width] ++ ['{']) :: rows.map (rowText width) ++
    [['}', ';'], []] with hlines
  have htext : x = ['\n'].intercalate lines := by
    have hsplit : lines =
      ((arrayHead name [rows.length, width] ++ ['{']) :: rows.map (rowText width) ++
        [['}', ';']]) ++ [[]] := by simp [hlines]
    rw [show x = _ from intercalate_concat _ _, hsplit, intercalate_concat, unlines_append]
    simp [unlines]
  have hhead := (reads_array hne hname [rows.length, width] (Reads.punct_cons '{' .nil)).code rfl
  have hclose := (Reads.punct_cons '}' (Reads.punct_cons ';' .nil)).code rfl
  have hcomplete : ∀ x ∈ lines, Complete x := by
    simp only [hlines, List.cons_append, List.forall_mem_cons, List.forall_mem_append,
      List.forall_mem_map]
    exact ⟨hhead.1, fun r hr => (rowText_read (h r hr)).1, hclose.1, complete_nil,
      List.forall_mem_nil _⟩
  -- Each line is complete, so that they are read one by one.
  obtain ⟨h1, h2, h3⟩ := lines_read hcomplete
  rw [htext]
  have hmacros : (rows.map (rowText width)).flatMap macros = [] := by
    rw [List.flatMap_map, List.flatMap_eq_nil_iff]
    exact fun r hr => (rowText_read (h r hr)).2.1
  have hcode : (rows.map (rowText width)).flatMap codeTokens =
      rows.flatMap fun r => rowTokens byteText r ++ [.punct ','] := by
    rw [List.flatMap_map]
    exact List.flatMap_congr fun r hr => (rowText_read (h r hr)).2.2
  have hnil : macros [] = [] ∧ codeTokens [] = [] := ⟨rfl, rfl⟩
  refine ⟨h1, h2.trans ?_, h3.trans ?_⟩
  · simp only [hlines, List.flatMap_append, List.flatMap_cons, List.flatMap_nil, hhead.2.1, hmacros,
      hclose.2.1, hnil.1, List.append_nil]
  · simp only [hlines, List.flatMap_append, List.flatMap_cons, List.flatMap_nil, hhead.2.2, hcode,
      hclose.2.2, hnil.2, List.append_nil, arrayTokens_append, tableTokens]
    simp

/-- `c_array` prints rows of one length, and C reads them. -/
theorem cArray_declares {rows : List (List UInt8)} {text : List Char}
    (h : cArray name rows = .ok text) :
    SameLength rows ∧ Declares [text] [] (rowsArrays name rows) := by
  cases rows with
  | nil =>
    cases h
    exact ⟨List.forall_mem_nil _, .blank⟩
  | cons first rows =>
    rw [cArray] at h
    dsimp only at h
    split at h
    · cases h
    · next hany =>
      -- The check has passed: all rows are as long as the first.
      have hwidth : ∀ r ∈ first :: rows, r.length = first.length := by simpa using hany
      refine ⟨fun r hr r' hr' => (hwidth r hr).trans (hwidth r' hr').symm, ?_⟩
      have hread := table_read hne hname hwidth
      cases h
      have htext : ['\n'].intercalate (("static const uint8_t ".toList ++ name ++
          '[' :: decimal (first :: rows).length ++ "][".toList ++ decimal first.length ++
            "] = \x7b".toList) :: (first :: rows).map (rowText first.length) ++
              ["\x7d;\n".toList]) =
          ['\n'].intercalate ((arrayHead name [(first :: rows).length, first.length] ++ ['{']) ::
            (first :: rows).map (rowText first.length) ++ [['}', ';', '\n']]) := by
        unfold arrayHead decimal
        simp only [String.reduceToList, List.flatMap_cons, List.flatMap_nil, List.append_assoc,
          List.cons_append, List.nil_append, List.append_nil]
      rw [htext]
      exact .array hread (declared_arrayTokens name _ (semicolon_not_mem_tableTokens _ _)
        (readInit_table integerConstant_byteText))

/-- `c_flags` prints zeros and ones. -/
theorem cFlags_declares (flags : List Bool) :
    Declares [cFlags name flags] [] (flagArrays name flags) := by
  cases flags with
  | nil => exact .blank
  | cons flag flags =>
    set bytes := (flag :: flags).map flagByte with hbytes
    have hdecimal : ∀ b : UInt8, decimal b.toNat ≠ [] := fun b => Nat.toDigits_ne_nil
    have hdigits : ∀ b : UInt8, ∀ c ∈ decimal b.toNat, isWordChar c = true :=
      fun b => isWordChar_toDigits _
    have hvalue : ∀ b : UInt8, integerConstant (decimal b.toNat) = some b.toNat :=
      fun b => integerConstant_toDigits _
    -- The flags are printed in decimal.
    have hlist := reads_bytes hdecimal hdigits bytes (Reads.punct_cons '}'
      (Reads.punct_cons ';' .nil))
    have hline := (reads_array hne hname [bytes.length] (Reads.punct_cons '{' hlist)).code rfl
    have htext : cFlags name (flag :: flags) = arrayHead name [bytes.length] ++
        '{' :: ((bytes.flatMap fun b => decimal b.toNat ++ [',']) ++ ['}', ';']) ++ '\n' :: [] := by
      have hbody : (flag :: flags).flatMap (fun f => decimal f.toNat ++ [',']) =
          bytes.flatMap fun b => decimal b.toNat ++ [','] := by
        rw [hbytes, List.flatMap_map]
        exact List.flatMap_congr fun f _ => by cases f <;> rfl
      have hlength : (flag :: flags).length = bytes.length := by rw [hbytes, List.length_map]
      rw [cFlags, if_neg (by simp)]
      dsimp only
      rw [hbody, hlength]
      unfold arrayHead
      simp only [decimal, String.reduceToList, List.flatMap_cons, List.flatMap_nil,
        List.append_assoc, List.cons_append, List.nil_append, List.append_nil]
    have hempty : macros [] = [] ∧ codeTokens [] = [] := ⟨rfl, rfl⟩
    rw [htext]
    refine .array ⟨hline.1.lineBreak complete_nil, ?_, ?_⟩ (declared_arrayTokens name [bytes.length]
      (semicolon_not_mem_rowTokens (fun b => decimal b.toNat) bytes) ?_)
    · rw [macros_append hline.1, hline.2.1, hempty.1, List.append_nil]
    · rw [codeTokens_append hline.1, hline.2.2, hempty.2, List.append_nil, arrayTokens_append]
      simp [rowTokens]
    · have hrow : readInit [] false (rowTokens (fun b => decimal b.toNat) bytes ++ []) =
          some (.ofBytes bytes, []) := readInit_row hvalue
      rwa [List.append_nil] at hrow

/-- A count is a macro. -/
theorem count_declares (n : ℕ) :
    Declares ["#define ".toList ++ name ++ ' ' :: decimal n] [(name, [.word (decimal n)])] [] := by
  have hdefine : Reads ['d', 'e', 'f', 'i', 'n', 'e'] [.word ['d', 'e', 'f', 'i', 'n', 'e']] :=
    .word (by decide) (forall_mem_of_all (by decide))
  have hdigits : Reads (decimal n) [.word (decimal n)] :=
    .word Nat.toDigits_ne_nil (isWordChar_toDigits n)
  have hreads := Reads.punct_cons '#' (hdefine.space ((Reads.word hne hname).space hdigits))
  have htext : "#define ".toList ++ name ++ ' ' :: decimal n =
      '#' :: (['d', 'e', 'f', 'i', 'n', 'e'] ++ ' ' :: (name ++ ' ' :: decimal n)) := by
    simp only [String.reduceToList, List.cons_append, List.nil_append]
  rw [htext]
  exact .line (hreads.directive rfl)

end Names

/-! ## Functions -/

/-- The columns of a function, that of the verdicts included. -/
def KatFunction.slots (f : KatFunction) : List String :=
  f.columns.map Column.name ++ if f.hasVerdict then ["valid"] else []

/-- A function with a verdict has a slot for it. -/
theorem KatFunction.valid_mem_slots {f : KatFunction} (h : f.hasVerdict = true) :
    "valid" ∈ f.slots := by
  rw [slots, if_pos h]
  exact List.mem_append_right _ List.mem_cons_self

/-- Each column has a slot. -/
theorem KatFunction.name_mem_slots {f : KatFunction} {c : Column} (h : c ∈ f.columns) :
    c.name ∈ f.slots := List.mem_append_left _ (List.mem_map_of_mem h)

/-- The name of a count is one word. -/
theorem countName_word (lvl : Level) (f : KatFunction) :
    countName lvl f ≠ [] ∧ ∀ c ∈ countName lvl f, isWordChar c = true := by
  have hall : countName lvl f ≠ [] ∧ ((countName lvl f).all fun c => isWordChar c) = true := by
    cases lvl <;> cases f <;> decide
  exact ⟨hall.1, List.all_eq_true.mp hall.2⟩

/-- So is the name of an array. -/
theorem arrayName_word (lvl : Level) {f : KatFunction} {slot : String} (h : slot ∈ f.slots) :
    arrayName lvl f slot ≠ [] ∧ ∀ c ∈ arrayName lvl f slot, isWordChar c = true := by
  have hall : ∀ slot ∈ f.slots, arrayName lvl f slot ≠ [] ∧
      ((arrayName lvl f slot).all fun c => isWordChar c) = true := by
    cases lvl <;> cases f <;> decide
  exact ⟨(hall slot h).1, List.all_eq_true.mp (hall slot h).2⟩

/-- The column of some rows. -/
def values (rows : List Row) (name : String) : List (List UInt8) :=
  rows.map fun r => (r.bytes.get name).getD []

/-- The verdicts of some rows. -/
def verdicts (rows : List Row) : List Bool := rows.map fun r => r.valid.getD false

/-- A column that can be taken holds the values of its rows. -/
theorem columnOf_ok {rows : List Row} {name : String} {column : List (List UInt8)}
    (h : columnOf rows name = .ok column) : column = values rows name := by
  rw [columnOf, mapM_eq_ok] at h
  rw [values]
  induction h with
  | nil => rfl
  | @cons r bytes rows column hr _ ih =>
    rw [List.map_cons, ← ih]
    cases hget : r.bytes.get name with
    | none => simp [lookup, hget] at hr
    | some value =>
      simp only [lookup, hget, Except.ok.injEq] at hr
      rw [hr]
      rfl

/-- The same for the verdicts. -/
theorem verdictsOf_ok {rows : List Row} {flags : List Bool} (h : verdictsOf rows = .ok flags) :
    flags = verdicts rows := by
  rw [verdictsOf, mapM_eq_ok] at h
  rw [verdicts]
  induction h with
  | nil => rfl
  | @cons r flag rows flags hr _ ih =>
    rw [List.map_cons, ← ih]
    cases hvalid : r.valid with
    | none => simp [hvalid] at hr
    | some value =>
      simp only [hvalid, Except.ok.injEq] at hr
      rw [hr]
      rfl

/-- The arrays of a function. -/
def functionArrays (lvl : Level) (f : KatFunction) (rows : List Row) : List ArrayDef :=
  (f.columns.flatMap fun c => rowsArrays (arrayName lvl f c.name) (values rows c.name)) ++
    if f.hasVerdict then flagArrays (arrayName lvl f "valid") (verdicts rows) else []

/-- The lines of the columns declare their arrays. -/
theorem columns_declare {lvl : Level} {f : KatFunction} {rows : List Row} {columns : List Column}
    {lines : List (List Char)} (hcolumns : ∀ c ∈ columns, c ∈ f.columns)
    (h : List.Forall₂ (fun c line => (columnOf rows c.name >>= cArray (arrayName lvl f c.name)) =
      .ok line) columns lines) :
    (∀ c ∈ columns, SameLength (values rows c.name)) ∧ Declares lines []
      (columns.flatMap fun c => rowsArrays (arrayName lvl f c.name) (values rows c.name)) := by
  induction h with
  | nil => exact ⟨List.forall_mem_nil _, .nil⟩
  | @cons c line columns lines hc _ ih =>
    rw [List.forall_mem_cons] at hcolumns
    obtain ⟨hsame, hdeclares⟩ := ih hcolumns.2
    obtain ⟨column, hcolumn, harray⟩ := bind_eq_ok.mp hc
    obtain rfl := columnOf_ok hcolumn
    obtain ⟨hne, hname⟩ := arrayName_word lvl (KatFunction.name_mem_slots hcolumns.1)
    obtain ⟨hsame₁, hdeclares₁⟩ := cArray_declares hne hname harray
    exact ⟨List.forall_mem_cons.mpr ⟨hsame₁, hsame⟩, hdeclares₁.cons hdeclares⟩

/-- The lines of the verdicts declare their array, where there is one. -/
theorem flagLines_declares {lvl : Level} {f : KatFunction} {rows : List Row}
    {lines : List (List Char)} (h : flagLines lvl f rows = .ok lines) : Declares lines []
      (if f.hasVerdict then flagArrays (arrayName lvl f "valid") (verdicts rows) else []) := by
  rw [flagLines] at h
  split at h
  · next hverdict =>
    obtain ⟨flags, hflags, h⟩ := bind_eq_ok.mp h
    cases h
    obtain rfl := verdictsOf_ok hflags
    obtain ⟨hne, hname⟩ := arrayName_word lvl (KatFunction.valid_mem_slots hverdict)
    rw [if_pos hverdict]
    exact cFlags_declares hne hname _
  · next hverdict =>
    cases h
    rw [if_neg hverdict]
    exact .nil

/-- The lines of a function declare its macro and its arrays. -/
theorem functionLines_declares {lvl : Level} {f : KatFunction} {rows : List Row}
    {lines : List (List Char)} (h : functionLines lvl f rows = .ok lines) :
    (∀ c ∈ f.columns, SameLength (values rows c.name)) ∧
      Declares lines [(countName lvl f, [.word (decimal rows.length)])]
        (functionArrays lvl f rows) := by
  obtain ⟨arrays, harrays, h⟩ := bind_eq_ok.mp h
  obtain ⟨flags, hflags, h⟩ := bind_eq_ok.mp h
  cases h
  obtain ⟨hsame, hdeclares⟩ := columns_declare (fun c hc => hc) (mapM_eq_ok.mp harrays)
  obtain ⟨hne, hname⟩ := countName_word lvl f
  exact ⟨hsame, (count_declares hne hname rows.length).cons
    (hdeclares.append (flagLines_declares hflags))⟩

/-! ## The header -/

/-- The count of a function, if it has rows. -/
def dataMacros (data : Data) (lvl : Level) (f : KatFunction) : List (List Char × List Token) :=
  match data lvl f with
  | some rows => [(countName lvl f, [.word (decimal rows.length)])]
  | none => []

/-- The arrays of a function, if it has rows. -/
def dataArrays (data : Data) (lvl : Level) (f : KatFunction) : List ArrayDef :=
  match data lvl f with
  | some rows => functionArrays lvl f rows
  | none => []

/-- Each table has rows of one length. -/
def Rectangular (data : Data) (lvl : Level) (f : KatFunction) : Prop :=
  ∀ rows, data lvl f = some rows → ∀ c ∈ f.columns, SameLength (values rows c.name)

/-- Those of a parameter set declare what its functions do. -/
theorem levelLines_declares {data : Data} {lvl : Level} {lines : List (List Char)}
    (h : levelLines data lvl = .ok lines) :
    (∀ f ∈ functions, Rectangular data lvl f) ∧
      Declares lines (functions.flatMap (dataMacros data lvl))
        (functions.flatMap (dataArrays data lvl)) := by
  obtain ⟨liness, hlines, h⟩ := bind_eq_ok.mp h
  cases h
  have hparts : List.Forall₂ (fun f lines => Rectangular data lvl f ∧
      Declares lines (dataMacros data lvl f) (dataArrays data lvl f)) functions liness := by
    refine (mapM_eq_ok.mp hlines).imp fun f lines hf => ?_
    rw [Rectangular, dataMacros, dataArrays]
    cases hdata : data lvl f with
    | none =>
      rw [hdata] at hf
      cases hf
      refine ⟨fun rows h => ?_, .nil⟩
      cases h
    | some rows =>
      rw [hdata] at hf
      obtain ⟨hsame, hdeclares⟩ := functionLines_declares hf
      refine ⟨fun rows' heq => ?_, hdeclares⟩
      cases heq
      exact hsame
  obtain ⟨hrect, hdeclares⟩ := (List.forall₂_and_left _ _).mp hparts
  have htitle : Declares ["/* ---------- ML-KEM-".toList ++ decimal lvl.number ++
      " ---------- */".toList] [] [] := by
    refine .line ?_
    simp only [String.reduceToList]
    cases lvl <;> exact ⟨⟨by decide, by decide⟩, by decide, by decide⟩
  have hfunctions : Declares liness.flatten (functions.flatMap (dataMacros data lvl))
      (functions.flatMap (dataArrays data lvl)) := .flatten hdeclares
  have hall := htitle.cons (Declares.blank.cons hfunctions)
  rw [List.nil_append, List.nil_append, List.nil_append, List.nil_append] at hall
  exact ⟨hrect, hall⟩

/-- The macros of the preamble. -/
def preambleMacros (source : Provenance) : List (List Char × List Token) :=
  [("ACVP_VECTORS_H".toList, []), ("ACVP_VERSION".toList, [.quoted '"' source.version])]

/-- No line of the comment ends it. -/
theorem staysOpen_commentLines (source : Provenance) :
    ∀ rest ∈ commentLines source, StaysOpen rest := by
  have happend {x y : List Char} (hx : StaysOpen x) (hne : x ≠ []) (hy : '*' ∉ y) :
      StaysOpen (x ++ y) := by
    obtain ⟨c, x, rfl⟩ := List.exists_cons_of_ne_nil hne
    exact ⟨hx.1, fun hmem => (List.mem_append.mp hmem).elim hx.2 hy⟩
  -- Digests are printed in hex, which has no asterisk.
  have hdigest (bytes : List UInt8) : '*' ∉ hexChars bytes := by
    intro hmem
    obtain ⟨b, -, hb⟩ := List.mem_flatMap.mp hmem
    obtain ⟨hhi, hlo⟩ := digitValue_hexChars b
    have hnone : digitValue '*' = none := rfl
    simp only [List.mem_cons, List.not_mem_nil, or_false] at hb
    rcases hb with hb | hb
    · rw [← hb, hnone] at hhi
      cases hhi
    · rw [← hb, hnone] at hlo
      cases hlo
  rw [commentLines]
  simp only [List.forall_mem_append, List.forall_mem_singleton]
  refine ⟨⟨⟨?_, ?_⟩, ?_⟩, ?_⟩
  · apply Literals.induction fun lines : List (List Char) => ∀ rest ∈ lines, StaysOpen rest
    · repeat' first | exact .nil | apply Literals.cons
    · decide
  · simp only [String.reduceToList]
    exact happend (by decide) (by decide) fun hmem => (source.version_plain _ hmem).1 rfl
  · apply Literals.induction fun lines : List (List Char) => ∀ rest ∈ lines, StaysOpen rest
    · repeat' first | exact .nil | apply Literals.cons
    · decide
  · -- Two lines for each file: its name and its digest.
    intro rest hrest
    obtain ⟨file, -, hrest⟩ := List.mem_flatMap.mp hrest
    simp only [List.mem_cons, List.not_mem_nil, or_false] at hrest
    simp only [String.reduceToList] at hrest
    rcases hrest with rfl | rfl
    · exact happend (by decide) (by decide) file.asterisk_not_mem
    · exact happend (by decide) (by decide) (hdigest _)

/-- The guard defines its macro. -/
theorem guardLines_declares : Declares guardLines [("ACVP_VECTORS_H".toList, [])] [] := by
  have hread : (∀ x ∈ guardLines, splice.state none x = none ∧
      uncomment.state .code (splice.emit none x) = .code) ∧
        guardLines.flatMap macros = [("ACVP_VECTORS_H".toList, [])] ∧
          guardLines.flatMap codeTokens = [] := by
    apply Literals.induction fun lines : List (List Char) =>
      (∀ x ∈ lines, splice.state none x = none ∧
        uncomment.state .code (splice.emit none x) = .code) ∧
          lines.flatMap macros = [("ACVP_VECTORS_H".toList, [])] ∧ lines.flatMap codeTokens = []
    · repeat' first | exact .nil | apply Literals.cons
    · decide
  obtain ⟨hcomplete, hmacros, hcode⟩ := hread
  refine ⟨fun x hx => ⟨(hcomplete x hx).1, (hcomplete x hx).2⟩, hmacros, fun rest => ?_⟩
  rw [hcode]
  rfl

/-- The line of the version defines its macro. -/
theorem version_declares (source : Provenance) :
    Declares ["#define ACVP_VERSION \"".toList ++ source.version ++ ['"']]
      [("ACVP_VERSION".toList, [.quoted '"' source.version])] [] := by
  have hdefine : Reads ['d', 'e', 'f', 'i', 'n', 'e'] [.word ['d', 'e', 'f', 'i', 'n', 'e']] :=
    .word (by decide) (forall_mem_of_all (by decide))
  have hname : Reads "ACVP_VERSION".toList [.word "ACVP_VERSION".toList] :=
    .word (by decide) (forall_mem_of_all (by decide))
  have hplain : ∀ c ∈ source.version, c ≠ '"' ∧ c ≠ '\\' ∧ c ≠ '\n' := fun c hc =>
    (source.version_plain c hc).2
  obtain ⟨hcomplete, hlines⟩ :=
    Reads.quoted hplain (Reads.punct_cons '#' (hdefine.space hname))
  have htext : "#define ACVP_VERSION \"".toList ++ source.version ++ ['"'] =
      '#' :: (['d', 'e', 'f', 'i', 'n', 'e'] ++ ' ' :: "ACVP_VERSION".toList) ++
        ' ' :: '"' :: (source.version ++ ['"']) := by
    simp
  rw [htext]
  exact .line ⟨hcomplete, by rw [macros, hlines]; rfl, by rw [codeTokens, hlines]; rfl⟩

/-- The preamble defines these two and declares nothing. -/
theorem preamble_declares (source : Provenance) (lines : List (List Char)) :
    ∃ lines', ['\n'].intercalate (preamble source ++ lines) = ['\n'].intercalate (lines' ++ lines) ∧
      Declares lines' (preambleMacros source) [] := by
  -- The comment counts as one line.
  set comment := ['/', '*'] :: (commentLines source).map commentLine ++
    [[' ', '*', '/']] with hcomment
  set rest := guardLines ++
    ["#define ACVP_VERSION \"".toList ++ source.version ++ ['"'], []] with hrest
  have hne : rest ++ lines ≠ [] := by simp [hrest]
  have hpreamble : preamble source ++ lines = comment ++ (rest ++ lines) := by
    rw [hcomment, hrest, preamble]
    simp only [List.append_assoc]
  refine ⟨['\n'].intercalate comment :: rest, ?_, ?_⟩
  · rw [hpreamble, intercalate_append (by simp [hcomment]) hne, List.cons_append,
      List.intercalate_cons_of_ne_nil hne, List.append_assoc]
  · exact (Declares.line (comment_read (staysOpen_commentLines source))).cons
      (guardLines_declares.append ((version_declares source).cons .blank))

/-- The macros and the arrays of the header. -/
theorem main_read {τ : Type} [DecidableEq τ] {docs : Documents τ} {source : Provenance}
    {limit : Option ℤ} {text : List Char} (h : main docs source limit = .ok (some text)) :
    ∃ data, collect limit docs = .ok data ∧ (∀ lvl f, Rectangular data lvl f) ∧
      macros text = preambleMacros source ++
        levels.flatMap (fun lvl => functions.flatMap (dataMacros data lvl)) ∧
      arrays text = levels.flatMap fun lvl => functions.flatMap (dataArrays data lvl) := by
  rw [main] at h
  split at h
  · cases h
  · obtain ⟨data, hdata, h⟩ := bind_eq_ok.mp h
    obtain ⟨liness, hlines, h⟩ := bind_eq_ok.mp h
    cases h
    have hlevels := (mapM_eq_ok.mp hlines).imp fun _ _ => levelLines_declares
    obtain ⟨hrect, hdeclares⟩ := (List.forall₂_and_left _ _).mp hlevels
    -- The end of the guard, and the empty line behind it.
    have hendif : Declares ["#endif /* ACVP_VECTORS_H */".toList] [] [] := by
      simp only [String.reduceToList]
      exact .line ⟨⟨by decide, by decide⟩, by decide, by decide⟩
    have hend := hendif.cons .blank
    simp only [List.append_nil] at hend
    -- The beginning of the header reads as its macros, whatever follows.
    obtain ⟨lines', hpreamble, hdeclares'⟩ := preamble_declares source
      (liness.flatten ++ ["#endif /* ACVP_VECTORS_H */".toList, []])
    obtain ⟨hmacros, harrays⟩ := (hdeclares'.append ((Declares.flatten hdeclares).append hend)).text
    refine ⟨data, hdata, fun lvl f => hrect lvl ?_ f ?_, ?_, ?_⟩
    · cases lvl <;> decide
    · cases f <;> decide
    · rw [List.append_assoc, hpreamble, hmacros, List.append_nil]
    · rw [List.append_assoc, hpreamble, harrays, List.append_nil, List.nil_append]

end PqcIot.KatHeader
