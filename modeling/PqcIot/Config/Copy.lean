import PqcIot.Config.Registration
import PqcIot.Config.Template

/-!
# Copies of the template

In a copy of the template in which only the bytes have been replaced, `extract_bytes` finds the
identifier and the key that the C compiler finds. `registered_iff` states it together with what
holds of headers in general.
-/

namespace PqcIot

open Text Text.C DeviceConfig

/-! ## Bytes as items -/

namespace ByteText

variable (b : ByteText)

/-- The value is read from the two digits. -/
theorem exists_digits : ∃ h l, digitValue b.hi = some h ∧ digitValue b.lo = some l ∧
    b.value.toNat = 16 * h + l := by
  obtain ⟨h, hh⟩ := Option.isSome_iff_exists.mp b.isSome_hi
  obtain ⟨l, hl⟩ := Option.isSome_iff_exists.mp b.isSome_lo
  have h1 := digitValue_lt hh
  have h2 := digitValue_lt hl
  have hbyte : h * 16 + l < 256 := by omega
  exact ⟨h, l, hh, hl, by simp [value, hh, hl, Nat.mod_eq_of_lt hbyte, Nat.mul_comm]⟩

/-- The text of a byte is one word. -/
theorem isWordChar_text : ∀ c ∈ b.text, C.isWordChar c = true := by
  obtain ⟨h, l, hh, hl, -⟩ := b.exists_digits
  simp only [text, List.forall_mem_cons, List.not_mem_nil, false_imp_iff, implies_true, and_true]
  exact ⟨by decide, by decide, (isWordChar_of_digitValue hh).1, (isWordChar_of_digitValue hl).1⟩

/-- C reads the byte. -/
theorem integerConstant_text : integerConstant b.text = some b.value.toNat := by
  obtain ⟨h, l, hh, hl, hvalue⟩ := b.exists_digits
  rw [text, integerConstant_pair hh hl, hvalue]

/-- Python reads the byte. -/
theorem byteOf_text (decimal : Char → Option (Fin 10)) :
    ExtractBytes.byteOf decimal b.text = .ok b.value := by
  obtain ⟨h, l, hh, hl, hvalue⟩ := b.exists_digits
  have hhi := (isWordChar_of_digitValue hh).2.2.1
  have hlo := (isWordChar_of_digitValue hl).2.2.1
  have hunder : '_' ∉ [b.hi, b.lo] := by simpa using ⟨hhi.symm, hlo.symm⟩
  have hunsigned : unsigned b.text = some b.value.toNat := by
    rw [text, unsigned, if_pos (.inl rfl), ExtractBytes.prefixed_eq hunder,
      numeral_pair hh hl, hvalue]
  have hrange : 0 ≤ Int.ofNat b.value.toNat ∧ Int.ofNat b.value.toNat < 256 := by
    have hlt := b.value.toNat_lt
    rw [Int.ofNat_eq_natCast]
    omega
  rw [ExtractBytes.byteOf, ExtractBytes.pyInt_word decimal b.isWordChar_text, hunsigned,
    Option.map_some]
  simp only [if_pos hrange]
  simp

end ByteText

/-! ## Text without a `#define` of the name -/

namespace ExtractBytes

/-- No `#define` of the name begins in the text, whatever follows it. -/
def Skips (name x : List Char) : Prop :=
  ∀ s t y, x = s ++ t → t ≠ [] → afterDefine name (t ++ y) = none

/-- Within the given characters, the expression fails at their beginning. -/
def failsDefine (name x : List Char) : Bool :=
  (Pattern.literal "#define".toList).failsIn x ||
    match x.drop 7 with
    | [] => false
    | c :: x => !isWhitespace c || (Pattern.literal name).failsIn (x.dropWhile isWhitespace)

/-- Within the given characters, the expression fails wherever it starts in them. -/
def skipsDefine (name : List Char) : List Char → Bool
  | [] => true
  | c :: x => failsDefine name (c :: x) && skipsDefine name x

section Skips

variable {name x y rest : List Char}

/-- What fails within the text is no beginning of it, whatever follows. -/
theorem not_prefix_of_failsIn {chars : List Char} (h : (Pattern.literal chars).failsIn x = true) :
    ¬ chars <+: x ++ y := by
  have hfail := (Pattern.literal chars).matchesAt_append_of_failsIn (y := y) h
  rw [← Pattern.matchesAt_literal_iff, hfail]
  decide

/-- Nothing fails within the empty text. -/
theorem failsIn_nil (p : Pattern) : p.failsIn [] = false := by cases p <;> rfl

/-- Where it fails so, no `#define` of the name stands. -/
theorem afterDefine_of_failsDefine (h : failsDefine name x = true) :
    afterDefine name (x ++ y) = none := by
  rw [failsDefine, Bool.or_eq_true] at h
  rw [afterDefine]
  rcases h with h | h
  · rw [if_neg (not_prefix_of_failsIn h)]
  · split_ifs with hdefine
    · cases hdrop : x.drop 7 with
      | nil =>
        rw [hdrop] at h
        cases h
      | cons c x' =>
        have hlength : 7 ≤ x.length := by
          have hpos := congrArg List.length hdrop
          rw [List.length_drop, List.length_cons] at hpos
          omega
        rw [hdrop] at h
        rw [List.drop_append_of_le_length hlength, hdrop, List.cons_append]
        simp only [Bool.or_eq_true, Bool.not_eq_true'] at h
        refine if_neg fun hboth => ?_
        rcases h with h | h
        · rw [h] at hboth
          cases hboth.1
        · -- The white space ends within the given characters.
          have hne : x'.dropWhile isWhitespace ≠ [] := by
            intro hnil
            rw [hnil, failsIn_nil] at h
            cases h
          have hwhile : (x' ++ y).dropWhile isWhitespace = x'.dropWhile isWhitespace ++ y := by
            rw [List.dropWhile_append, if_neg (by simpa using hne)]
          rw [hwhile] at hboth
          exact not_prefix_of_failsIn h hboth.2
    · rfl

namespace Skips

/-- The decidable form of the same, for texts that are given. -/
theorem of_skipsDefine (h : skipsDefine name x = true) : Skips name x := by
  intro s t y hx hne
  -- On what stands before the `#`: the computation goes through it letter by letter.
  induction s generalizing x with
  | nil =>
    obtain ⟨c, t, rfl⟩ := List.exists_cons_of_ne_nil hne
    rw [hx, List.nil_append, skipsDefine, Bool.and_eq_true] at h
    exact afterDefine_of_failsDefine h.1
  | cons c s ih =>
    rw [hx, List.cons_append, skipsDefine, Bool.and_eq_true] at h
    exact ih h.2 rfl

/-- The expression begins with `#`. -/
theorem of_not_mem (h : '#' ∉ x) : Skips name x := by
  intro s t y hx hne
  obtain ⟨c, t, rfl⟩ := List.exists_cons_of_ne_nil hne
  rw [afterDefine]
  refine if_neg fun hdefine => h ?_
  have hc : '#' = c := (List.cons_prefix_cons.mp hdefine).1
  rw [hx, hc]
  simp

/-- Text that is skipped before text that is skipped. -/
theorem append (hx : Skips name x) (hy : Skips name y) : Skips name (x ++ y) := by
  intro s t z hsplit hne
  rcases List.append_eq_append_iff.mp hsplit with ⟨s', -, rfl⟩ | ⟨t', rfl, rfl⟩
  · exact hy s' t z rfl hne
  · cases t' with
    | nil => exact hy [] y z rfl (by simpa using hne)
    | cons c t' =>
      rw [List.append_assoc]
      exact hx s (c :: t') (y ++ z) rfl (by simp)

/-- What is skipped stands before the first `#define`. -/
theorem firstDefine (hname : ∀ c ∈ name.head?, isWhitespace c = false) (hne : name ≠ [])
    (hx : Skips name x) (hy : afterDefine name y = some rest) :
    FirstDefine name (x ++ y) x rest := by
  refine (firstDefine_iff hname hne).mpr ⟨⟨y, rfl, hy⟩, fun before text hsplit hsome => ?_⟩
  rcases List.append_eq_append_iff.mp hsplit with ⟨s', rfl, -⟩ | ⟨t', rfl, rfl⟩
  · simp
  · cases t' with
    | nil => simp
    | cons c t' => exact absurd (hx before (c :: t') y rfl (by simp)) hsome

end Skips

/-- A definition with nothing but skipped text before it is read. -/
theorem Header.extractBytes_of_skips (h : Header) {decimal : Char → Option (Fin 10)}
    (hindent : h.list.indent = []) (hskips : Skips h.list.name h.before)
    (hown : afterDefine h.list.name (h.list.text ++ h.after) = some rest)
    (hbytes : ∀ item ∈ h.list.items, byteOf decimal item.word = .ok item.value) :
    extractBytes decimal h.source h.list.name h.list.bytes.length = .ok h.list.bytes := by
  have hfirst : FirstDefine h.list.name h.source (h.before ++ h.list.indent) rest := by
    rw [Header.source, List.append_assoc, hindent, List.append_nil]
    exact hskips.firstDefine h.isWhitespace_name h.list.name_ne_nil hown
  exact h.extractBytes_eq hfirst hbytes

end Skips

end ExtractBytes

namespace DeviceConfig

/-- A byte with what stands around it. -/
def byteItem (left right : {gap : List Char // Gap gap}) (b : ByteText) : Item where
  left := left.1
  word := b.text
  right := right.1
  value := b.value
  gap_left := left.2
  gap_right := right.2
  isWordChar := b.isWordChar_text
  integerConstant := b.integerConstant_text

/-- White space between two bytes. -/
def oneSpace : {gap : List Char // Gap gap} := ⟨[' '], .space rfl .nil⟩

def noSpace : {gap : List Char // Gap gap} := ⟨[], .nil⟩

/-- The bytes of a line, with what stands before the first one and behind the last one. -/
def rowItems (left right : {gap : List Char // Gap gap}) : List ByteText → List Item
  | [] => []
  -- The last byte of a line is followed by what ends the line.
  | [b] => [byteItem left right b]
  | b :: c :: row => byteItem left noSpace b :: rowItems oneSpace right (c :: row)

section RowItems

variable {left right : {gap : List Char // Gap gap}} {row : List ByteText}

/-- The items of a row have the values of its bytes. -/
theorem rowItems_value : (rowItems left right row).map Item.value = row.map ByteText.value := by
  induction row generalizing left with
  | nil => rfl
  | cons b row ih =>
    cases row with
    | nil => rfl
    | cons c row =>
      rw [rowItems, List.map_cons, ih]
      rfl

/-- A row with bytes has items. -/
theorem rowItems_ne_nil (hne : row ≠ []) : rowItems left right row ≠ [] := by
  match row with
  | [b] => simp [rowItems]
  | b :: c :: row => simp [rowItems]

/-- The line is its bytes and what stands around them. -/
theorem intercalate_rowItems (hne : row ≠ []) :
    [','].intercalate ((rowItems left right row).map Item.text) =
      left.1 ++ rowText row ++ right.1 := by
  induction row generalizing left with
  | nil => exact absurd rfl hne
  | cons b row ih =>
    cases row with
    | nil => simp [rowItems, byteItem, Item.text, rowText]
    | cons c row =>
      have hrest : [','].intercalate ((rowItems oneSpace right (c :: row)).map Item.text) =
          oneSpace.1 ++ rowText (c :: row) ++ right.1 := ih (by simp)
      have hnil : (rowItems oneSpace right (c :: row)).map Item.text ≠ [] := by
        simpa using rowItems_ne_nil (by simp)
      -- The commas are between the bytes, and the space after a comma belongs to the next byte.
      rw [rowItems, List.map_cons, List.intercalate_cons_of_ne_nil hnil, hrest]
      simp [byteItem, Item.text, noSpace, oneSpace, rowText, List.intercalate_cons_cons]

/-- Python reads each byte as C does. -/
theorem byteOf_rowItems (decimal : Char → Option (Fin 10)) : ∀ item ∈ rowItems left right row,
    ExtractBytes.byteOf decimal item.word = .ok item.value := by
  induction row generalizing left with
  | nil => simp [rowItems]
  | cons b row ih =>
    cases row with
    | nil => simpa [rowItems, byteItem] using b.byteOf_text decimal
    | cons c row =>
      rw [rowItems, List.forall_mem_cons]
      exact ⟨b.byteOf_text decimal, ih⟩

end RowItems

/-! ## The definitions of the template -/

/-- Spaces are a gap. -/
theorem Gap.spaces (n : ℕ) : Gap (List.replicate n ' ') := by
  induction n with
  | zero => exact .nil
  | succ n ih => exact .space rfl ih

/-- The end of a line that is continued, and the beginning of the next line. -/
def nextLine (n m : ℕ) : {gap : List Char // Gap gap} :=
  ⟨List.replicate n ' ' ++ '\\' :: '\n' :: List.replicate m ' ',
    (Gap.spaces n).append (Gap.lineEnd (List.forall_mem_nil _) (Gap.spaces m))⟩

/-- A `#define` of bytes as in the template. -/
def defineBytes (name : List Char) (nameGap : {gap : List Char // Gap gap}) (items : List Item)
    (hname : name ≠ []) (hword : ∀ c ∈ name, C.isWordChar c = true) (hitems : items ≠ []) :
    ByteList where
  name := name
  indent := []
  hashGap := []
  sepLeft := []
  sep := ' '
  sepRight := []
  nameGap := nameGap.1
  items := items
  trailing := none
  name_ne_nil := hname
  isWordChar_name := hword
  gap_indent := .nil
  gap_hashGap := .nil
  gap_sepLeft := .nil
  isHSpace_sep := rfl
  gap_sepRight := .nil
  gap_nameGap := nameGap.2
  items_ne_nil := hitems
  gap_trailing := by simp

section Copy

variable (deviceId : {row : List ByteText // row.length = 8})
  (devicePsk : {row : List ByteText // row.length = 32})

/-- The template with other bytes. -/
def Values.withBytes : Values :=
  { Values.template with
    deviceId := deviceId.1
    devicePsk := devicePsk.1
    length_deviceId := deviceId.2
    length_devicePsk := devicePsk.2 }

/-- The identifier of a copy. -/
def idList : ByteList :=
  defineBytes "DEVICE_ID".toList oneSpace (rowItems oneSpace oneSpace deviceId.1) (by decide)
    (forall_mem_of_all (by decide))
    (rowItems_ne_nil (List.ne_nil_of_length_eq_add_one deviceId.2))

/-- The items of the key, line by line. -/
def pskItems : List Item :=
  rowItems (nextLine 73 8) noSpace (devicePsk.1.take 11) ++
  (rowItems (nextLine 5 8) noSpace ((devicePsk.1.drop 11).take 11) ++
  rowItems (nextLine 5 8) (nextLine 12 4) (devicePsk.1.drop 22))

/-- None of the three rows of a PSK is empty. -/
theorem pskRows_ne_nil : devicePsk.1.take 11 ≠ [] ∧ (devicePsk.1.drop 11).take 11 ≠ [] ∧
    devicePsk.1.drop 22 ≠ [] := by
  have hlength := devicePsk.2
  refine ⟨?_, ?_, ?_⟩ <;> refine List.ne_nil_of_length_pos ?_
  · rw [List.length_take]
    omega
  · rw [List.length_take, List.length_drop]
    omega
  · rw [List.length_drop]
    omega

/-- A PSK has items. -/
theorem pskItems_ne_nil : pskItems devicePsk ≠ [] :=
  List.append_ne_nil_of_left_ne_nil (rowItems_ne_nil (pskRows_ne_nil devicePsk).1) _

/-- The key of a copy. -/
def pskList : ByteList :=
  defineBytes "DEVICE_PSK".toList (nextLine 60 4) (pskItems devicePsk) (by decide)
    (forall_mem_of_all (by decide))
    (pskItems_ne_nil devicePsk)

/-- The definition of `DEVICE_ID` is its line. -/
theorem idList_text :
    (idList deviceId).text = bytesLine "#define DEVICE_ID \x7b " deviceId.1 " \x7d" := by
  have hrow : deviceId.1 ≠ [] := List.ne_nil_of_length_eq_add_one deviceId.2
  have hinner : [','].intercalate ((rowItems oneSpace oneSpace deviceId.1).map Item.text) =
      oneSpace.1 ++ rowText deviceId.1 ++ oneSpace.1 := intercalate_rowItems hrow
  have hlead : "#define DEVICE_ID \x7b ".toList =
      "#define".toList ++ ' ' :: ("DEVICE_ID".toList ++ [' ', '{', ' ']) := by decide
  have htail : " \x7d".toList = [' ', '}'] := by decide
  have hspace : oneSpace.1 = [' '] := rfl
  rw [bytesLine, hlead, htail]
  simp [ByteList.text, ByteList.directive, ByteList.body, ByteList.inner, idList, defineBytes,
    hinner, hspace]

/-- The lines of the key. -/
def pskLines : List (List Char) :=
  (pskComment.drop 12).map String.toList ++
  [bytesLine "        " (devicePsk.1.take 11) ",     \\",
    bytesLine "        " ((devicePsk.1.drop 11).take 11) ",     \\",
    bytesLine "        " (devicePsk.1.drop 22) "            \\"] ++
  (rekeyComment.take 1).map String.toList

/-- The definition of `DEVICE_PSK` is its four lines. -/
theorem pskList_text : (pskList devicePsk).text = ['\n'].intercalate (pskLines devicePsk) := by
  obtain ⟨h₁, h₂, h₃⟩ := pskRows_ne_nil devicePsk
  have hinner : [','].intercalate ((pskItems devicePsk).map Item.text) =
      (nextLine 73 8).1 ++ rowText (devicePsk.1.take 11) ++ [','] ++
      ((nextLine 5 8).1 ++ rowText ((devicePsk.1.drop 11).take 11) ++ [','] ++
      ((nextLine 5 8).1 ++ rowText (devicePsk.1.drop 22) ++ (nextLine 12 4).1)) := by
    have hne {left right : {gap : List Char // Gap gap}} {row : List ByteText} (h : row ≠ []) :
        (rowItems left right row).map Item.text ≠ [] := by simpa using rowItems_ne_nil h
    rw [pskItems, List.map_append, List.map_append, intercalate_append (hne h₁) (by simp [hne h₂]),
      intercalate_append (hne h₂) (hne h₃), intercalate_rowItems h₁, intercalate_rowItems h₂,
      intercalate_rowItems h₃]
    simp [noSpace]
  -- The strings of the lines, taken apart at the continuations.
  have hlead : (pskComment.drop 12).map String.toList =
      ["#define".toList ++ ' ' :: ("DEVICE_PSK".toList ++ (List.replicate 60 ' ' ++ ['\\'])),
        List.replicate 4 ' ' ++ '{' :: (List.replicate 73 ' ' ++ ['\\'])] := by decide
  have hclose : (rekeyComment.take 1).map String.toList = [List.replicate 4 ' ' ++ ['}']] := by
    decide
  have hindent : "        ".toList = List.replicate 8 ' ' := by decide
  have hend : ",     \\".toList = ',' :: (List.replicate 5 ' ' ++ ['\\']) := by decide
  have hlast : "            \\".toList = List.replicate 12 ' ' ++ ['\\'] := by decide
  rw [pskLines, hlead, hclose, bytesLine, bytesLine, bytesLine, hindent, hend, hlast]
  simp only [ByteList.text, ByteList.directive, ByteList.body, ByteList.inner, pskList, defineBytes,
    Option.toList_none, List.append_nil, hinner, nextLine]
  simp [-List.reduceReplicate]

/-! ## The text of a copy -/

/-- What stands before the identifier. -/
def headStrings : List String :=
  banner ++ ["#define WIFI_SSID     \"your-ssid-here\"",
    "#define WIFI_PASSWORD \"your-wifi-password-here\""] ++
  serverComment ++ ["#define SERVER_HOST \"192.168.188.53\"", "#define SERVER_PORT 8443"] ++
  retryComment ++ ["#define CONNECT_TIMEOUT_MS 8000", "#define RETRY_BASE_MS      2000"] ++
  idComment

/-- What stands between the identifier and the key. -/
def middleStrings : List String := pskComment.take 12

/-- What stands behind the key. -/
def tailStrings : List String :=
  rekeyComment.drop 1 ++ ["#define REKEY_INTERVAL_S 3600"] ++ ending

/-- Lines that another one follows. -/
def joined (strings : List String) : List Char := ['\n'].intercalate (strings.map String.toList)

/-- The template: three runs of fixed lines, with the two definitions between them. -/
theorem lines_withBytes : lines (.withBytes deviceId devicePsk) =
    headStrings.map String.toList ++ [(idList deviceId).text] ++ middleStrings.map String.toList ++
      pskLines devicePsk ++ tailStrings.map String.toList := by
  have hwifi : [quoted "#define WIFI_SSID     \"" "your-ssid-here".toList,
      quoted "#define WIFI_PASSWORD \"" "your-wifi-password-here".toList] =
      ["#define WIFI_SSID     \"your-ssid-here\"",
        "#define WIFI_PASSWORD \"your-wifi-password-here\""].map String.toList := by decide
  have hserver : [quoted "#define SERVER_HOST \"" "192.168.188.53".toList,
      plain "#define SERVER_PORT " "8443".toList] =
      ["#define SERVER_HOST \"192.168.188.53\"", "#define SERVER_PORT 8443"].map String.toList := by
    decide
  have hretry : [plain "#define CONNECT_TIMEOUT_MS " "8000".toList,
      plain "#define RETRY_BASE_MS      " "2000".toList] =
      ["#define CONNECT_TIMEOUT_MS 8000", "#define RETRY_BASE_MS      2000"].map String.toList := by
    decide
  have hrekey : [plain "#define REKEY_INTERVAL_S " "3600".toList] =
      ["#define REKEY_INTERVAL_S 3600"].map String.toList := by decide
  have hpsk : pskComment = middleStrings ++ pskComment.drop 12 := (List.take_append_drop 12 _).symm
  have hclose : rekeyComment = rekeyComment.take 1 ++ rekeyComment.drop 1 := rfl
  rw [lines, initLines, hpsk, hclose]
  simp only [headStrings, tailStrings, pskLines, List.map_append, List.append_assoc]
  rw [← hwifi, ← hserver, ← hretry, ← hrekey, idList_text]
  rfl

/-- The file, around its definitions of bytes. -/
theorem text_withBytes : text (.withBytes deviceId devicePsk) =
    joined headStrings ++ '\n' :: ((idList deviceId).text ++ '\n' :: (joined middleStrings ++
      '\n' :: ((pskList devicePsk).text ++ '\n' :: (joined tailStrings ++ ['\n'])))) := by
  have hpsk : pskLines devicePsk ≠ [] := by simp [pskLines]
  have hhead : headStrings.map String.toList ≠ [] := List.cons_ne_nil _ _
  have hmiddle : middleStrings.map String.toList ≠ [] := List.cons_ne_nil _ _
  have htail : tailStrings.map String.toList ≠ [] := List.cons_ne_nil _ _
  have hid : [(idList deviceId).text] ≠ [] := by simp
  rw [text, lines_withBytes, unlines_append, unlines_append, unlines_append, unlines_append,
    unlines_eq hhead, unlines_eq hid, unlines_eq hmiddle, unlines_eq hpsk, unlines_eq htail,
    ← pskList_text, List.intercalate_singleton]
  simp [joined]

end Copy

/-- The names of the two macros. -/
def byteNames : List (List Char) := ["DEVICE_ID".toList, "DEVICE_PSK".toList]

/-- Text that neither the compiler nor `extract_bytes` takes for a definition of one of the
macros. -/
structure Inert (x : List Char) : Prop where
  complete : Complete x
  definitions : ∀ name ∈ byteNames, definitions x name = []
  skips : ∀ name ∈ byteNames, ExtractBytes.Skips name x

/-- Lines that are inert when they stand together, as a computation. -/
abbrev InertLines (lines : List (List Char)) : Prop :=
  let x := ['\n'].intercalate lines
  splice.state none x = none ∧ uncomment.state .code (splice.emit none x) = .code ∧
    ∀ name ∈ byteNames, definitions x name = [] ∧ ExtractBytes.skipsDefine name x = true

/-- Lines that define neither macro, put together. -/
theorem Inert.of_lines {strings : List String} (h : InertLines (strings.map String.toList)) :
    Inert (joined strings) :=
  ⟨⟨h.1, h.2.1⟩, fun name hname => (h.2.2 name hname).1,
    fun name hname => .of_skipsDefine (h.2.2 name hname).2⟩

/-- The lines before `DEVICE_ID` define neither macro. -/
theorem inert_head : Inert (joined headStrings) := by
  refine .of_lines ?_
  apply Literals.induction InertLines
  · simp only [headStrings, banner, serverComment, retryComment, idComment, List.cons_append,
      List.nil_append]
    repeat' first | exact .nil | apply Literals.cons
  · decide +kernel

/-- Nor do those between the definitions. -/
theorem inert_middle : Inert (joined middleStrings) := by
  refine .of_lines ?_
  apply Literals.induction InertLines
  · simp only [middleStrings, pskComment, List.take_succ_cons, List.take_zero]
    repeat' first | exact .nil | apply Literals.cons
  · decide +kernel

/-- Nor do those behind them. -/
theorem inert_tail : Inert (joined tailStrings) := by
  refine .of_lines ?_
  apply Literals.induction InertLines
  · simp only [tailStrings, rekeyComment, ending, List.drop_succ_cons, List.drop_zero,
      List.cons_append, List.nil_append]
    repeat' first | exact .nil | apply Literals.cons
  · decide +kernel

section Headers

variable (deviceId : {row : List ByteText // row.length = 8})
  (devicePsk : {row : List ByteText // row.length = 32})

/-- In a copy, each of the macros is defined where the template defines it. -/
theorem definitions_withBytes {name : List Char} (hname : name ∈ byteNames) :
    definitions (text (.withBytes deviceId devicePsk)) name =
      (if (idList deviceId).name = name then [(idList deviceId).bodyTokens] else []) ++
      (if (pskList devicePsk).name = name then [(pskList devicePsk).bodyTokens] else []) := by
  have hnil : definitions [] name = [] := rfl
  -- The text is a sequence of parts that each end outside comments and continued lines.
  rw [text_withBytes, definitions_append inert_head.complete,
    definitions_append (idList deviceId).reads_text.complete,
      definitions_append inert_middle.complete,
    definitions_append (pskList devicePsk).reads_text.complete,
      definitions_append inert_tail.complete,
    inert_head.definitions _ hname, inert_middle.definitions _ hname,
      inert_tail.definitions _ hname,
    ByteList.definitions_text_self, ByteList.definitions_text_self, hnil]
  simp

theorem name_idList : (idList deviceId).name = "DEVICE_ID".toList := rfl

theorem name_pskList : (pskList devicePsk).name = "DEVICE_PSK".toList := rfl

/-- The list has the bytes of the identifier. -/
theorem idList_bytes : (idList deviceId).bytes = deviceId.1.map ByteText.value := rowItems_value

/-- The list has the bytes of the PSK. -/
theorem pskList_bytes : (pskList devicePsk).bytes = devicePsk.1.map ByteText.value := by
  -- Three lines, of eleven, eleven and ten bytes.
  have hrows : devicePsk.1 =
    devicePsk.1.take 11 ++ ((devicePsk.1.drop 11).take 11 ++ devicePsk.1.drop 22) := by
    have hrest := List.take_append_drop 11 (devicePsk.1.drop 11)
    rw [List.drop_drop] at hrest
    rw [hrest, List.take_append_drop]
  conv_rhs => rw [hrows]
  have hitems : (pskList devicePsk).items = pskItems devicePsk := rfl
  rw [ByteList.bytes, hitems, pskItems]
  simp only [List.map_append, rowItems_value]

/-- A copy as a header with its identifier. -/
def idHeader : ExtractBytes.Header where
  before := joined headStrings ++ ['\n']
  list := idList deviceId
  after := '\n' :: (joined middleStrings ++
    '\n' :: ((pskList devicePsk).text ++ '\n' :: (joined tailStrings ++ ['\n'])))
  lineStart := .of_complete inert_head.complete
  blankLine := .of_lineBreak _
  once := by
    have hmem : "DEVICE_ID".toList ∈ byteNames := by decide
    have h := definitions_withBytes deviceId devicePsk hmem
    rw [text_withBytes, name_idList, name_pskList, if_pos rfl, if_neg (by decide)] at h
    rw [name_idList, List.append_assoc, List.append_assoc, List.singleton_append, h]
    rfl

/-- A copy as a header with its key. -/
def pskHeader : ExtractBytes.Header where
  before := joined headStrings ++ '\n' ::
    ((idList deviceId).text ++ '\n' :: joined middleStrings) ++ ['\n']
  list := pskList devicePsk
  after := '\n' :: (joined tailStrings ++ ['\n'])
  lineStart := .of_complete
    (inert_head.complete.lineBreak
      ((idList deviceId).reads_text.complete.lineBreak inert_middle.complete))
  blankLine := .of_lineBreak _
  once := by
    have hmem : "DEVICE_PSK".toList ∈ byteNames := by decide
    have h := definitions_withBytes deviceId devicePsk hmem
    rw [text_withBytes, name_idList, name_pskList, if_neg (by decide), if_pos rfl] at h
    simp only [List.append_assoc, List.cons_append, List.nil_append] at h ⊢
    rw [name_pskList, h]
    rfl

/-- The header around `DEVICE_ID` is the copy of the template. -/
theorem idHeader_source :
    (idHeader deviceId devicePsk).source = text (.withBytes deviceId devicePsk) := by
  rw [text_withBytes]
  simp [ExtractBytes.Header.source, idHeader]

/-- So is that around `DEVICE_PSK`. -/
theorem pskHeader_source :
    (pskHeader deviceId devicePsk).source = text (.withBytes deviceId devicePsk) := by
  rw [text_withBytes]
  simp [ExtractBytes.Header.source, pskHeader]

/-- Behind `#define`, the expression finds the name at once. -/
theorem afterDefine_defineBytes (name : List Char) (nameGap : {gap : List Char // Gap gap})
    (items : List Item) (hname : name ≠ []) (hword : ∀ c ∈ name, C.isWordChar c = true)
    (hitems : items ≠ []) (after : List Char) :
    ExtractBytes.afterDefine name
      ((defineBytes name nameGap items hname hword hitems).text ++ after) =
      some ((defineBytes name nameGap items hname hword hitems).body ++ after) := by
  generalize hd : defineBytes name nameGap items hname hword hitems = d
  have htext : d.text ++ after = "#define".toList ++ ' ' :: (name ++ (d.body ++ after)) := by
    simp [← hd, defineBytes, ByteList.text, ByteList.directive]
  have hspace : isWhitespace ' ' = true := rfl
  -- The name begins with no white space, so that only the separator is skipped.
  have hwhile : (name ++ (d.body ++ after)).dropWhile isWhitespace = name ++ (d.body ++ after) := by
    obtain ⟨c, name, rfl⟩ := List.exists_cons_of_ne_nil hname
    have hc := (ExtractBytes.isWordChar_cases (hword c List.mem_cons_self)).2.1
    rw [List.cons_append, List.dropWhile_cons_of_neg (by simp [hc])]
  have hdrop : ("#define".toList ++ ' ' :: (name ++ (d.body ++ after))).drop 7 =
      ' ' :: (name ++ (d.body ++ after)) := rfl
  rw [ExtractBytes.afterDefine, htext, if_pos (List.prefix_append _ _), hdrop]
  simp only [hwhile]
  rw [if_pos ⟨hspace, List.prefix_append _ _⟩, List.drop_left]

/-- The line of the identifier is not taken for a definition of the key. -/
theorem skips_idList : ExtractBytes.Skips "DEVICE_PSK".toList (idList deviceId).text := by
  rw [idList_text, bytesLine, List.append_assoc]
  refine .append (.of_skipsDefine (by decide)) (.of_not_mem fun hmem => ?_)
  -- Behind its own `#` the line has no other.
  rcases List.mem_append.mp hmem with h | h
  · rcases mem_rowText h with h | h
    · revert h
      decide
    · cases h
  · revert h
    decide

/-- A line break is skipped. -/
theorem skips_lineBreak (name : List Char) : ExtractBytes.Skips name ['\n'] :=
    .of_not_mem (by decide)

/-- In a copy of the template, `extract_bytes` finds the identifier. -/
theorem extractBytes_deviceId (decimal : Char → Option (Fin 10)) :
    ExtractBytes.extractBytes decimal (text (.withBytes deviceId devicePsk)) "DEVICE_ID".toList 8 =
      .ok (deviceId.1.map ByteText.value) := by
  have hskips : ExtractBytes.Skips "DEVICE_ID".toList (idHeader deviceId devicePsk).before :=
    (inert_head.skips _ (by decide)).append (skips_lineBreak _)
  have hown := afterDefine_defineBytes "DEVICE_ID".toList oneSpace
    (rowItems oneSpace oneSpace deviceId.1)
    (by decide) (forall_mem_of_all (by decide))
    (rowItems_ne_nil (List.ne_nil_of_length_eq_add_one deviceId.2))
    (idHeader deviceId devicePsk).after
  have hok := (idHeader deviceId devicePsk).extractBytes_of_skips rfl hskips hown
    (byteOf_rowItems decimal)
  have hbytes : (idHeader deviceId devicePsk).list.bytes = deviceId.1.map ByteText.value :=
    idList_bytes deviceId
  rw [idHeader_source, hbytes, List.length_map, deviceId.2] at hok
  exact hok

/-- In a copy of the template, `extract_bytes` finds the key. -/
theorem extractBytes_devicePsk (decimal : Char → Option (Fin 10)) :
    ExtractBytes.extractBytes decimal
      (text (.withBytes deviceId devicePsk)) "DEVICE_PSK".toList 32 =
      .ok (devicePsk.1.map ByteText.value) := by
  have hbreak := skips_lineBreak "DEVICE_PSK".toList
  -- The line of the identifier stands before the key, too.
  have hskips : ExtractBytes.Skips "DEVICE_PSK".toList (pskHeader deviceId devicePsk).before :=
    ((inert_head.skips _ (by decide)).append (hbreak.append ((skips_idList deviceId).append
      (hbreak.append (inert_middle.skips _ (by decide)))))).append hbreak
  have hown := afterDefine_defineBytes "DEVICE_PSK".toList (nextLine 60 4) (pskItems devicePsk)
    (by decide) (forall_mem_of_all (by decide)) (pskItems_ne_nil devicePsk)
    (pskHeader deviceId devicePsk).after
  have hread : ∀ item ∈ pskItems devicePsk, ExtractBytes.byteOf decimal item.word =
    .ok item.value := by
    intro item hitem
    rw [pskItems, List.mem_append, List.mem_append] at hitem
    rcases hitem with h | h | h <;> exact byteOf_rowItems decimal item h
  have hok := (pskHeader deviceId devicePsk).extractBytes_of_skips rfl hskips hown hread
  have hbytes : (pskHeader deviceId devicePsk).list.bytes = devicePsk.1.map ByteText.value :=
    pskList_bytes devicePsk
  rw [pskHeader_source, hbytes, List.length_map, devicePsk.2] at hok
  exact hok

end Headers

end DeviceConfig

namespace ExtractBytes

/-- The C compiler puts these bytes into the macro. -/
def Compiled (source name : List Char) (raw : List UInt8) : Prop :=
  ∃ body, definitions source name = [body] ∧ byteList body = some raw

/-- In every header that defines the macro once, the bytes that `extract_bytes` returns are the ones
that are compiled, exactly if no other text misleads it; and in a copy of the template it does
return them. -/
theorem registered_iff (decimal : Char → Option (Fin 10)) :
    (∀ h : Header, Compiled h.source h.list.name h.list.bytes ∧
      ((∀ raw, extractBytes decimal h.source h.list.name h.list.bytes.length = .ok raw →
        raw = h.list.bytes) ↔ ¬ h.Misled decimal)) ∧
    ∀ (deviceId : {row : List ByteText // row.length = 8})
      (devicePsk : {row : List ByteText // row.length = 32}),
      let source := text (.withBytes deviceId devicePsk)
      (Compiled source "DEVICE_ID".toList (deviceId.1.map ByteText.value) ∧
        extractBytes decimal source "DEVICE_ID".toList 8 = .ok (deviceId.1.map ByteText.value)) ∧
      Compiled source "DEVICE_PSK".toList (devicePsk.1.map ByteText.value) ∧
        extractBytes decimal source "DEVICE_PSK".toList 32 =
          .ok (devicePsk.1.map ByteText.value) := by
  have hcompiled (h : Header) : Compiled h.source h.list.name h.list.bytes := ⟨_, h.compiled⟩
  refine ⟨fun h => ⟨hcompiled h, h.extractBytes_iff decimal⟩, fun deviceId devicePsk => ?_⟩
  have hid := hcompiled (idHeader deviceId devicePsk)
  have hpsk := hcompiled (pskHeader deviceId devicePsk)
  rw [idHeader_source] at hid
  rw [pskHeader_source] at hpsk
  refine ⟨⟨?_, extractBytes_deviceId deviceId devicePsk decimal⟩, ?_,
    extractBytes_devicePsk deviceId devicePsk decimal⟩
  · rw [← idList_bytes]
    exact hid
  · rw [← pskList_bytes]
    exact hpsk

theorem length_zeroes : (List.replicate 8 ByteText.zero).length = 8 := rfl

/-- The definition of a macro whose name continues the name. -/
def renamed : List Char := "#define DEVICE_ID_OLD { 1, 2, 3, 4, 5, 6, 7, 8 }".toList

/-- A header in which another macro, whose name begins with the name, is defined first. -/
def renamedHeader : Header where
  before := renamed ++ ['\n']
  list := idList ⟨List.replicate 8 .zero, length_zeroes⟩
  after := ['\n']
  lineStart := .of_complete ⟨by decide, by decide⟩
  blankLine := .of_lineBreak []
  once := by decide

/-- The other macro's bytes are returned. -/
theorem extractBytes_renamed :
    extractBytes (fun _ => none) renamedHeader.source "DEVICE_ID".toList 8 =
      .ok [1, 2, 3, 4, 5, 6, 7, 8] ∧
      Compiled renamedHeader.source "DEVICE_ID".toList [0, 0, 0, 0, 0, 0, 0, 0] := by
  refine ⟨?_, _, renamedHeader.compiled⟩
  have hread : (extractBytes (fun _ => none) renamedHeader.source "DEVICE_ID".toList 8).toOption =
      some [1, 2, 3, 4, 5, 6, 7, 8] := by decide +kernel
  -- `toOption` forgets the exception, which there is none of.
  cases h : extractBytes (fun _ => none) renamedHeader.source "DEVICE_ID".toList 8 with
  | error exc =>
    rw [h] at hread
    cases hread
  | ok raw =>
    rw [h] at hread
    rw [Option.some.inj hread]

end ExtractBytes

end PqcIot
