import Mathlib
import PqcIot.Config.ExtractBytes
import PqcIot.Config.Layout

/-!
# The registered bytes are the compiled bytes

`extract_bytes` reads the first `#define` of the name, wherever it stands. Where that is the
definition that the C compiler sees, the bytes are the same ones (`extractBytes_own`), and so they
are in every copy of the template (`extractBytes_template`). `registered_iff` says exactly when
another text misleads it.
-/

namespace PqcIot

open Text Text.C DeviceConfig

namespace ExtractBytes

/-! ## Literals -/

/-- A character of a word is ASCII, no white space, and does not end a line. -/
theorem isWordChar_cases {c : Char} (h : isWordChar c = true) :
    c.toNat < 128 ∧ isWhitespace c = false ∧ isInLine c = true := by
  -- Letters, digits and the underscore.
  have hrange : (48 ≤ c.toNat ∧ c.toNat ≤ 57) ∨ (65 ≤ c.toNat ∧ c.toNat ≤ 90) ∨
      (97 ≤ c.toNat ∧ c.toNat ≤ 122) ∨ c.toNat = 95 := by
    simp only [isWordChar, Char.isAlphanum, Char.isAlpha, Char.isUpper, Char.isLower, Char.isDigit,
      Bool.or_eq_true, Bool.and_eq_true, decide_eq_true_eq, UInt32.le_iff_toNat_le, ge_iff_le] at h
    have hunder : c = '_' → c.toNat = 95 := by
      rintro rfl
      rfl
    simp only [Char.toNat]
    rcases h with ((h | h) | h) | h
    · exact .inr (.inl h)
    · exact .inr (.inr (.inl h))
    · exact .inl h
    · exact .inr (.inr (.inr (hunder h)))
  refine ⟨by omega, ?_, ?_⟩
  · rw [Bool.eq_false_iff]
    intro hspace
    simp only [isWhitespace, List.mem_cons, List.not_mem_nil, or_false, Bool.or_eq_true,
      Bool.and_eq_true, decide_eq_true_eq] at hspace
    omega
  · have hbreak : c ≠ '\n' := by
      rintro rfl
      revert hrange
      decide
    have hslash : c ≠ '\\' := by
      rintro rfl
      revert hrange
      decide
    simp [isInLine, hbreak, hslash]

section Literals

variable {word chars : List Char} {base n m : ℕ} {c : Char}

/-- A character that is neither a digit nor an underscore is not in a number. -/
theorem grouped_eq_none (hc : c ∈ chars) (hdigit : digitValue c = none) (hunder : c ≠ '_') :
    grouped base chars = none := by
  rw [grouped]
  split
  · rfl
  · rw [Option.eq_none_iff_forall_ne_some]
    intro n hn
    obtain ⟨d, hd, -⟩ := mem_of_numeral hn c (List.mem_filter.mpr ⟨hc, by simpa using hunder⟩)
    rw [hdigit] at hd
    cases hd

/-- No number has such a character. -/
theorem prefixed_eq_none (hc : c ∈ chars) (hdigit : digitValue c = none) (hunder : c ≠ '_') :
    prefixed base chars = none := by
  rw [prefixed.eq_def]
  split
  · exact grouped_eq_none ((List.mem_cons.mp hc).resolve_left hunder) hdigit hunder
  · exact grouped_eq_none hc hdigit hunder

/-- Python does not read constants with a suffix. -/
theorem unsigned_eq_none (hc : c ∈ word) (hsuffix : isSuffixChar c = true) :
    unsigned word = none := by
  have hcases : c = 'u' ∨ c = 'U' ∨ c = 'l' ∨ c = 'L' := by
    simpa [isSuffixChar, or_assoc] using hsuffix
  have hdigit : digitValue c = none := by rcases hcases with rfl | rfl | rfl | rfl <;> rfl
  have hunder : c ≠ '_' := by rcases hcases with rfl | rfl | rfl | rfl <;> decide
  have hgrouped (base : ℕ) : grouped base word = none := grouped_eq_none hc hdigit hunder
  rw [unsigned.eq_def]
  split
  · next x digits =>
    have hmem {p : Prop} (hx : p → c ≠ x) (hp : p) : c ∈ digits := by
      have hzero : c ≠ '0' := by rcases hcases with rfl | rfl | rfl | rfl <;> decide
      exact (List.mem_cons.mp ((List.mem_cons.mp hc).resolve_left hzero)).resolve_left (hx hp)
    split_ifs with hx hb ho
    · refine prefixed_eq_none (hmem (p := x = 'x' ∨ x = 'X') ?_ hx) hdigit hunder
      rintro (rfl | rfl) rfl <;> simp at hcases
    · refine prefixed_eq_none (hmem (p := x = 'b' ∨ x = 'B') ?_ hb) hdigit hunder
      rintro (rfl | rfl) rfl <;> simp at hcases
    · refine prefixed_eq_none (hmem (p := x = 'o' ∨ x = 'O') ?_ ho) hdigit hunder
      rintro (rfl | rfl) rfl <;> simp at hcases
    · rw [hgrouped, Option.filter_none]
  · exact hgrouped 10

/-- Without underscores, digits are read alike. -/
theorem grouped_eq (h : '_' ∉ chars) : grouped base chars = numeral base chars := by
  have hfilter : chars.filter (· ≠ '_') = chars := by
    rw [List.filter_eq_self]
    intro c hc
    simpa using fun heq : c = '_' => h (heq ▸ hc)
  rw [grouped, List.splitOn_eq_singleton h, hfilter]
  split
  · next hnil =>
    rw [← List.mem_singleton.mp hnil]
    rfl
  · rfl

/-- Without underscores there is nothing to group. -/
theorem prefixed_eq (h : '_' ∉ chars) : prefixed base chars = numeral base chars := by
  rw [prefixed.eq_def]
  split
  · exact absurd List.mem_cons_self h
  · exact grouped_eq h

/-- A numeral has no underscore. -/
theorem not_mem_of_numeral (h : numeral base chars = some n) : '_' ∉ chars := by
  intro hmem
  obtain ⟨d, hd, -⟩ := mem_of_numeral h _ hmem
  cases hd

/-- Where both C and Python read a constant, they read the same number. -/
theorem unsigned_eq (hc : integerConstant word = some m)
    (hpy : unsigned word = some n) : n = m := by
  -- Python knows no suffixes.
  have hplain : ∀ c ∈ word, ¬ isSuffixChar c = true := by
    intro c hmem hsuffix
    rw [unsigned_eq_none hmem hsuffix] at hpy
    cases hpy
  have hdrop : word.rdropWhile isSuffixChar = word :=
    List.rdropWhile_eq_self_iff.mpr fun hne => hplain _ (List.getLast_mem hne)
  have hsame {base : ℕ} {chars : List Char} (hnum : numeral base chars = some m)
      (hpre : prefixed base chars = some n) : n = m := by
    rw [prefixed_eq (not_mem_of_numeral hnum), hnum] at hpre
    exact (Option.some.inj hpre).symm
  -- C decides by the first two characters, as Python does.
  rw [integerConstant, hdrop] at hc
  split at hc
  · split at hc
    · next x digits _ =>
      rw [unsigned] at hpy
      split_ifs at hc with hx hb
      · rw [if_pos hx] at hpy
        exact hsame hc hpy
      · rw [if_neg hx, if_pos hb] at hpy
        exact hsame hc hpy
      · -- An octal constant is a decimal one only if all of its digits are zeros.
        have ho : ¬ (x = 'o' ∨ x = 'O') := by
          obtain ⟨d, hd, -⟩ := mem_of_numeral hc x List.mem_cons_self
          rintro (rfl | rfl) <;> cases hd
        have hunder : '_' ∉ '0' :: x :: digits := by
          rw [List.mem_cons, not_or]
          exact ⟨by decide, not_mem_of_numeral hc⟩
        rw [if_neg hx, if_neg hb, if_neg ho, grouped_eq hunder, Option.filter_eq_some_iff] at hpy
        obtain ⟨hdecimal, hzero⟩ := hpy
        obtain rfl : n = 0 := by simpa using hzero
        have hzeros := (numeral_eq_zero_iff (by decide) (by simp)).mp hdecimal
        have hoctal : numeral 8 (x :: digits) = some 0 :=
          (numeral_eq_zero_iff (by decide) (by simp)).mpr fun c h =>
            hzeros c (List.mem_cons_of_mem _ h)
        rw [hoctal] at hc
        exact Option.some.inj hc
    · -- A single zero.
      next hshort =>
      have hpy' : unsigned word = grouped 10 word := by
        rw [unsigned.eq_def]
        split
        · exact absurd rfl (hshort _ _)
        · rfl
      rw [hpy', grouped_eq (not_mem_of_numeral hc), hc] at hpy
      exact (Option.some.inj hpy).symm
  · cases hc

end Literals

/-! ## What the list of bytes holds -/

section Inner

variable (decimal : Char → Option (Fin 10))

/-- `int` reads a word as a number without a sign. -/
theorem pyInt_word {word : List Char} (hword : ∀ c ∈ word, C.isWordChar c = true) :
    pyInt decimal word = (unsigned word).map Int.ofNat := by
  have hascii : word.map (asciiDigit decimal) = word := by
    conv_rhs => rw [← List.map_id word]
    refine List.map_congr_left fun c hc => ?_
    rw [asciiDigit, if_pos (isWordChar_cases (hword c hc)).1, id]
  have hstrip : strip word = word := by
    have hpad := strip_pad [] word [] (by simp)
      (fun c hc => (isWordChar_cases (hword c hc)).2.1) (by simp)
    simpa using hpad
  rw [pyInt, hascii, hstrip]
  -- A word does not begin with a sign.
  split
  · exact absurd (hword '-' List.mem_cons_self) (by decide)
  · exact absurd (hword '+' List.mem_cons_self) (by decide)
  · rfl

/-- A byte that Python reads is the byte that C reads. -/
theorem value_of_byteOf {item : Item} {b : UInt8} (h : byteOf decimal item.word = .ok b) :
    b = item.value := by
  rw [byteOf, pyInt_word decimal item.isWordChar] at h
  cases hn : unsigned item.word with
  | none =>
    rw [hn] at h
    cases h
  | some n =>
    rw [hn] at h
    obtain rfl := unsigned_eq item.integerConstant hn
    have hlt := item.value.toNat_lt
    have hrange : 0 ≤ Int.ofNat item.value.toNat ∧ Int.ofNat item.value.toNat < 256 := by
      rw [Int.ofNat_eq_natCast]
      omega
    rw [Option.map_some] at h
    simp only [if_pos hrange] at h
    have heq := Except.ok.inj h
    simpa using heq.symm

/-- Behind the backslashes' removal, what stands between tokens is white space. -/
theorem Gap.isWhitespace {gap : List Char} (h : Gap gap) :
    ∀ c ∈ withoutBackslashes gap, Text.isWhitespace c = true := by
  have hspace (c : Char) (hc : isHSpace c = true) : Text.isWhitespace c = true ∧ c ≠ '\\' := by
    rcases isHSpace_cases hc with rfl | rfl | rfl | rfl <;> decide
  intro c hc
  obtain ⟨d, hd, rfl⟩ := List.mem_map.mp hc
  -- A gap has blanks and continued line ends, and nothing else.
  have hd' : d = '\\' ∨ d = '\n' ∨ isHSpace d = true := by
    clear hc
    induction h with
    | nil => cases hd
    | space hc' _ ih =>
      rcases List.mem_cons.mp hd with rfl | hd
      · exact .inr (.inr hc')
      · exact ih hd
    | lineEnd hblanks _ ih =>
      rcases List.mem_cons.mp hd with rfl | hd
      · exact .inl rfl
      · rcases List.mem_append.mp hd with hd | hd
        · exact .inr (.inr (hblanks d hd))
        · rcases List.mem_cons.mp hd with rfl | hd
          · exact .inr (.inl rfl)
          · exact ih hd
  rcases hd' with rfl | rfl | hd'
  · decide
  · decide
  · rw [if_neg (hspace d hd').2]
    exact (hspace d hd').1

/-- Backslashes are replaced one by one. -/
theorem withoutBackslashes_append (x y : List Char) :
    withoutBackslashes (x ++ y) = withoutBackslashes x ++ withoutBackslashes y := List.map_append

/-- A word has none. -/
theorem withoutBackslashes_word {word : List Char} (hword : ∀ c ∈ word, C.isWordChar c = true) :
    withoutBackslashes word = word := by
  conv_rhs => rw [← List.map_id word]
  refine List.map_congr_left fun c hc => ?_
  have hline := (isWordChar_cases (hword c hc)).2.2
  rw [isInLine, Bool.and_eq_true, bne_iff_ne, bne_iff_ne] at hline
  rw [if_neg hline.2, id]

/-- White space is neither a comma nor a brace. -/
theorem not_mem_of_isWhitespace {x : List Char} (h : ∀ c ∈ x, Text.isWhitespace c = true) :
    ',' ∉ x ∧ '{' ∉ x ∧ '}' ∉ x := by
  refine ⟨?_, ?_, ?_⟩ <;> intro hmem <;> cases h _ hmem

/-- The parts between the commas of the list. -/
theorem strip_item (item : Item) : strip (withoutBackslashes item.text) = item.word := by
  rw [Item.text, withoutBackslashes_append, withoutBackslashes_append,
    withoutBackslashes_word item.isWordChar]
  exact strip_pad _ _ _ (Gap.isWhitespace item.gap_left)
    (fun c hc => (isWordChar_cases (item.isWordChar c hc)).2.1) (Gap.isWhitespace item.gap_right)

/-- A gap is nothing but white space then. -/
theorem strip_gap {gap : List Char} (h : Gap gap) : strip (withoutBackslashes gap) = [] := by
  have hpad := strip_pad (withoutBackslashes gap) [] [] (Gap.isWhitespace h) (by simp) (by simp)
  simpa using hpad

/-- No item has a comma or a brace. -/
theorem not_mem_item (item : Item) : ',' ∉ withoutBackslashes item.text ∧
    '{' ∉ withoutBackslashes item.text ∧ '}' ∉ withoutBackslashes item.text := by
  have hleft := not_mem_of_isWhitespace (Gap.isWhitespace item.gap_left)
  have hright := not_mem_of_isWhitespace (Gap.isWhitespace item.gap_right)
  have hword : ',' ∉ item.word ∧ '{' ∉ item.word ∧ '}' ∉ item.word := by
    refine ⟨?_, ?_, ?_⟩ <;> intro hmem <;> cases item.isWordChar _ hmem
  rw [Item.text, withoutBackslashes_append, withoutBackslashes_append,
    withoutBackslashes_word item.isWordChar]
  simp only [List.mem_append, not_or]
  tauto

/-- The commas between the items stay. -/
theorem withoutBackslashes_intercalate (parts : List (List Char)) :
    withoutBackslashes ([','].intercalate parts) =
      [','].intercalate (parts.map withoutBackslashes) := by
  induction parts with
  | nil => rfl
  | cons part parts ih =>
    cases parts with
    | nil => simp
    | cons part' parts =>
      rw [List.intercalate_cons_cons, withoutBackslashes_append, withoutBackslashes_append, ih]
      simp only [List.map_cons, List.intercalate_cons_cons]
      rfl

/-- The parts between the commas of the list hold neither commas nor braces. -/
theorem not_mem_parts (d : ByteList) : ∀ part ∈
    (d.items.map Item.text ++ d.trailing.toList).map withoutBackslashes,
      ',' ∉ part ∧ '{' ∉ part ∧ '}' ∉ part := by
  intro part hpart
  obtain ⟨text, htext, rfl⟩ := List.mem_map.mp hpart
  rcases List.mem_append.mp htext with h | h
  · obtain ⟨item, -, rfl⟩ := List.mem_map.mp h
    exact not_mem_item item
  · exact not_mem_of_isWhitespace (Gap.isWhitespace (d.gap_trailing text (Option.mem_toList.mp h)))

/-- No brace closes within the list. -/
theorem not_mem_inner (d : ByteList) : '}' ∉ withoutBackslashes d.inner := by
  rw [ByteList.inner, withoutBackslashes_intercalate]
  have hparts := not_mem_parts d
  generalize (d.items.map Item.text ++ d.trailing.toList).map withoutBackslashes = parts at hparts
  clear d
  induction parts with
  | nil => simp
  | cons part parts ih =>
    rw [List.forall_mem_cons] at hparts
    cases parts with
    | nil => simpa using hparts.1.2.2
    | cons part' parts =>
      have hrest := ih hparts.2
      rw [List.intercalate_cons_cons, List.mem_append, List.mem_append, not_or, not_or]
      exact ⟨⟨hparts.1.2.2, by decide⟩, hrest⟩

/-- `extract_bytes` splits the list into the words of its items. -/
theorem values_inner (d : ByteList) :
    values (withoutBackslashes d.inner) = d.items.map Item.word := by
  have hne : (d.items.map Item.text ++ d.trailing.toList).map withoutBackslashes ≠ [] := by
    simp [d.items_ne_nil]
  have hitems : (d.items.map Item.word).filter (· ≠ []) = d.items.map Item.word := by
    rw [List.filter_eq_self]
    intro word hword
    obtain ⟨item, -, rfl⟩ := List.mem_map.mp hword
    simpa using item.word_ne_nil
  have htrailing : (d.trailing.toList.map fun gap => strip (withoutBackslashes gap)).filter
    (· ≠ []) = [] := by
    rw [List.filter_eq_nil_iff]
    intro word hword
    obtain ⟨gap, hgap, rfl⟩ := List.mem_map.mp hword
    simp [strip_gap (d.gap_trailing gap (Option.mem_toList.mp hgap))]
  rw [values, ByteList.inner, withoutBackslashes_intercalate,
    List.splitOn_intercalate _ (fun part h => (not_mem_parts d part h).1) hne, List.map_map,
      List.map_append,
    List.filter_append, List.map_map]
  have hwords : (strip ∘ withoutBackslashes) ∘ Item.text = Item.word := funext strip_item
  rw [hwords, hitems]
  exact (congrArg _ htrailing).trans (List.append_nil _)

end Inner

/-! ## The body of the definition -/

/-- Text in which every line is continued. -/
inductive Continued : List Char → Prop
  | nil : Continued []
  | char {c : Char} {x : List Char} (hc : isInLine c = true) (hx : Continued x) : Continued (c :: x)
  | lineEnd {blanks x : List Char} (hblanks : ∀ b ∈ blanks, isWhitespace b = true)
    (hx : Continued x) : Continued ('\\' :: (blanks ++ '\n' :: x))

namespace Continued

variable {x y : List Char}

/-- Continued text before continued text. -/
theorem append (hx : Continued x) (hy : Continued y) : Continued (x ++ y) := by
  induction hx with
  | nil => exact hy
  | char hc _ ih => exact ih.char hc
  | lineEnd hblanks _ ih =>
    rw [List.cons_append, List.append_assoc, List.cons_append]
    exact ih.lineEnd hblanks

/-- Characters of a line. -/
theorem of_isInLine (h : ∀ c ∈ x, isInLine c = true) : Continued x := by
  induction x with
  | nil => exact .nil
  | cons c x ih =>
    rw [List.forall_mem_cons] at h
    exact .char h.1 (ih h.2)

/-- A gap. -/
theorem of_gap (h : Gap x) : Continued x := by
  have hspace (c : Char) (hc : isHSpace c = true) : isInLine c = true ∧ isWhitespace c = true := by
    rcases isHSpace_cases hc with rfl | rfl | rfl | rfl <;> decide
  induction h with
  | nil => exact .nil
  | space hc _ ih => exact ih.char (hspace _ hc).1
  | lineEnd hblanks _ ih => exact ih.lineEnd fun b hb => (hspace b (hblanks b hb)).2

/-- Continued texts with commas between them. -/
theorem intercalate {parts : List (List Char)} (h : ∀ part ∈ parts, Continued part) :
    Continued ([','].intercalate parts) := by
  induction parts with
  | nil => exact .nil
  | cons part parts ih =>
    rw [List.forall_mem_cons] at h
    cases parts with
    | nil => simpa using h.1
    | cons part' parts =>
      rw [List.intercalate_cons_cons]
      exact (h.1.append (.char (by decide) .nil)).append (ih h.2)

/-- The lines of the definition are continued up to its end. -/
theorem inner (d : ByteList) : Continued d.inner := by
  refine intercalate fun part hpart => ?_
  rcases List.mem_append.mp hpart with h | h
  · obtain ⟨item, -, rfl⟩ := List.mem_map.mp h
    have hword : Continued item.word :=
      of_isInLine fun c hc => (isWordChar_cases (item.isWordChar c hc)).2.2
    exact ((of_gap item.gap_left).append hword).append (of_gap item.gap_right)
  · exact of_gap (d.gap_trailing part (Option.mem_toList.mp h))

variable {c : Char}

/-- No white space reaches a line break that is not continued. -/
theorem not_mem_takeWhile (hx : Continued x) (hc : isWhitespace c = false) (rest : List Char) :
    '\n' ∉ (x ++ c :: rest).takeWhile isWhitespace := by
  induction hx with
  | nil => rw [List.nil_append, List.takeWhile_cons_of_neg (by simpa using hc)]; simp
  | @char d x hd _ ih =>
    rw [List.cons_append]
    by_cases hspace : isWhitespace d = true
    · rw [List.takeWhile_cons_of_pos hspace, List.mem_cons, not_or]
      refine ⟨?_, ih⟩
      rintro rfl
      cases hd
    · rw [List.takeWhile_cons_of_neg hspace]
      simp
  | lineEnd _ _ _ => rw [List.cons_append, List.takeWhile_cons_of_neg (by decide)]; simp

/-- The expression takes all of it, and the character behind it. -/
theorem bodyOf_append (hx : Continued x) (hspace : isWhitespace c = false) (hc : isInLine c = true)
    (rest : List Char) :
    ∃ z, bodyOf (x ++ c :: rest) = x ++ c :: z := by
  induction hx with
  | nil => exact ⟨bodyOf rest, bodyOf_cons hc⟩
  | char hd _ ih =>
    obtain ⟨z, hz⟩ := ih
    exact ⟨z, by rw [List.cons_append, bodyOf_cons hd, hz, List.cons_append]⟩
  | lineEnd hblanks hx ih =>
    obtain ⟨z, hz⟩ := ih
    refine ⟨z, ?_⟩
    rw [List.cons_append, List.append_assoc, List.cons_append,
      bodyOf_lineEnd hblanks (hx.not_mem_takeWhile hspace rest), hz]
    simp

end Continued

/-! ## The definition itself -/

/-- White space at the beginning of a gap can be left out. -/
theorem exists_dropWhile_gap {gap : List Char} (h : Gap gap) {c : Char}
    (hc : isWhitespace c = false)
    (rest : List Char) :
    ∃ gap', Gap gap' ∧ (gap ++ c :: rest).dropWhile isWhitespace = gap' ++ c :: rest := by
  induction h with
  | nil => exact ⟨[], .nil, List.dropWhile_cons_of_neg (by simpa using hc)⟩
  | space hspace _ ih =>
    obtain ⟨gap', hgap', heq⟩ := ih
    refine ⟨gap', hgap', ?_⟩
    rw [List.cons_append, List.dropWhile_cons_of_pos, heq]
    rcases isHSpace_cases hspace with rfl | rfl | rfl | rfl <;> rfl
  | lineEnd hblanks hgap _ =>
    exact ⟨_, .lineEnd hblanks hgap, List.dropWhile_cons_of_neg (by decide)⟩

/-- A gap is white space, or it goes on with a continued line. -/
theorem gap_cases {gap : List Char} (h : Gap gap) : (∀ c ∈ gap, isWhitespace c = true) ∨
    ∃ blanks rest, gap = blanks ++ '\\' :: rest ∧ ∀ c ∈ blanks, isWhitespace c = true := by
  induction h with
  | nil => exact .inl (by simp)
  | @space c gap hspace _ ih =>
    have hc : isWhitespace c = true := by
      rcases isHSpace_cases hspace with rfl | rfl | rfl | rfl <;> rfl
    rcases ih with h | ⟨blanks, rest, rfl, h⟩
    · exact .inl (List.forall_mem_cons.mpr ⟨hc, h⟩)
    · exact .inr ⟨c :: blanks, rest, rfl, List.forall_mem_cons.mpr ⟨hc, h⟩⟩
  | lineEnd _ _ _ => exact .inr ⟨[], _, rfl, by simp⟩

/-- Behind white space, the name begins only where no continued line comes before it. -/
theorem dropWhile_separator {gap name rest : List Char} {c : Char} {text : List Char}
    (hgap : Gap gap)
    (hne : gap ≠ []) (hname : name ≠ []) (hword : ∀ c ∈ name, C.isWordChar c = true)
    (hsplit : gap ++ (name ++ rest) = c :: text) (hc : isWhitespace c = true)
    (hbegins : name <+: text.dropWhile isWhitespace) :
    text.dropWhile isWhitespace = name ++ rest := by
  obtain ⟨d, name, rfl⟩ := List.exists_cons_of_ne_nil hname
  have hd := isWordChar_cases (hword d List.mem_cons_self)
  -- Blanks only, or blanks up to a backslash.
  rcases gap_cases hgap with hall | ⟨blanks, gap', rfl, hblanks⟩
  · obtain ⟨e, gap, rfl⟩ := List.exists_cons_of_ne_nil hne
    rw [List.cons_append] at hsplit
    obtain ⟨rfl, rfl⟩ := List.cons.inj hsplit
    rw [List.dropWhile_append_of_pos (List.forall_mem_cons.mp hall).2, List.cons_append,
      List.dropWhile_cons_of_neg (by simp [hd.2.1])]
  · -- White space would end at the backslash, with which no name begins.
    exfalso
    rw [List.append_assoc, List.cons_append] at hsplit
    have hslash : isWhitespace '\\' = false := by decide
    cases blanks with
    | nil =>
      obtain ⟨rfl, rfl⟩ := List.cons.inj hsplit
      rw [hslash] at hc
      cases hc
    | cons e blanks =>
      rw [List.cons_append] at hsplit
      obtain ⟨rfl, rfl⟩ := List.cons.inj hsplit
      rw [List.dropWhile_append_of_pos (List.forall_mem_cons.mp hblanks).2,
        List.dropWhile_cons_of_neg (by decide), List.cons_prefix_cons] at hbegins
      rw [hbegins.1] at hd
      cases hd.2.2

/-- Where the expression matches at the definition, the body of the definition follows. -/
theorem afterDefine_own (d : ByteList) (after : List Char) {rest : List Char}
    (h : afterDefine d.name ('#' :: d.directive ++ after) = some rest) :
    rest = d.body ++ after := by
  have hsep : Gap (d.sepLeft ++ d.sep :: d.sepRight) :=
    d.gap_sepLeft.append (.space d.isHSpace_sep d.gap_sepRight)
  have hhash := d.gap_hashGap
  rw [afterDefine] at h
  split at h
  · next hdefine =>
    -- Nothing stands between `#` and `define`.
    have hnil : d.hashGap = [] := by
      have hrest : ['d', 'e', 'f', 'i', 'n', 'e'] <+: d.directive ++ after :=
        (List.cons_prefix_cons.mp hdefine).2
      rw [ByteList.directive] at hrest
      generalize d.hashGap = gap at hhash hrest
      cases hhash with
      | nil => rfl
      | space hc _ =>
        rw [List.cons_append, List.cons_append, List.cons_append, List.cons_append,
          List.cons_append, List.cons_prefix_cons] at hrest
        rw [← hrest.1] at hc
        cases hc
      | lineEnd _ _ =>
        simp at hrest
    have hdrop : ('#' :: d.directive ++ after).drop 7 =
        (d.sepLeft ++ d.sep :: d.sepRight) ++ (d.name ++ (d.body ++ after)) := by
      rw [ByteList.directive, hnil]
      simp
    rw [hdrop] at h
    split at h
    · next c text htext =>
      split_ifs at h with hif
      have hname := dropWhile_separator hsep
        (by simp) d.name_ne_nil d.isWordChar_name htext hif.1 hif.2
      rw [hname, List.drop_left] at h
      exact (Option.some.inj h).symm
    · cases h
  · cases h

/-- At the definition, the list of bytes is found. -/
theorem braces_own (d : ByteList) (after inner : List Char) :
    Braces (bodyOf ((d.body ++ after).dropWhile isWhitespace)) inner ↔
      inner = withoutBackslashes d.inner := by
  obtain ⟨gap, hgap, hdrop⟩ := exists_dropWhile_gap d.gap_nameGap (c := '{') (by decide)
    (d.inner ++ '}' :: after)
  have hcontinued : Continued (gap ++ '{' :: d.inner) :=
    (Continued.of_gap hgap).append (.char (by decide) (.inner d))
  obtain ⟨z, hz⟩ := hcontinued.bodyOf_append (c := '}') (by decide) (by decide) after
  -- Without the line ends of the macro, the initialiser is what stands between the braces.
  have hbody : withoutBackslashes (bodyOf ((d.body ++ after).dropWhile isWhitespace)) =
      withoutBackslashes gap ++ '{' :: withoutBackslashes d.inner ++ '}' ::
        withoutBackslashes z := by
    have hsplit : d.body ++ after = d.nameGap ++ '{' :: (d.inner ++ '}' :: after) := by
      simp [ByteList.body]
    rw [hsplit, hdrop]
    rw [List.append_assoc, List.cons_append] at hz
    rw [hz]
    simp [withoutBackslashes]
  have hopen := (not_mem_of_isWhitespace (Gap.isWhitespace hgap)).2.1
  have hclose := not_mem_inner d
  constructor
  · -- Both are what the lazy expression finds, so they are the same.
    rintro ⟨pre, post, heq, hpre, hinner⟩
    have hfound := (Regex.findGroup_lazy_iff (o := '{') (z := '}') (by decide) _ _).mpr
      ⟨pre, post, heq, hpre, hinner⟩
    have hown := (Regex.findGroup_lazy_iff (o := '{') (z := '}') (by decide) _ _).mpr
      ⟨_, _, hbody, hopen, hclose⟩
    rw [hfound] at hown
    exact Option.some.inj hown
  · rintro rfl
    exact ⟨_, _, hbody, hopen, hclose⟩

/-! ## A header with the definition -/

/-- A header in which a macro is defined once, as a list of bytes. -/
structure Header where
  before : List Char
  list : ByteList
  after : List Char
  lineStart : LineStart before
  blankLine : BlankLine after
  once : (definitions (before ++ list.text ++ after) list.name).length = 1

namespace Header

variable (h : Header)

/-- The text of the header. -/
def source : List Char := h.before ++ h.list.text ++ h.after

/-- Where the `#` of the definition stands. -/
def place : ℕ := (h.before ++ h.list.indent).length

/-- What the C compiler puts into the macro. -/
theorem compiled : definitions h.source h.list.name = [h.list.bodyTokens] ∧
    byteList h.list.bodyTokens = some h.list.bytes :=
  ⟨definitions_text h.list h.lineStart h.blankLine h.once, h.list.byteList_bodyTokens⟩

variable {decimal : Char → Option (Fin 10)} {before rest line inner : List Char} {raw : List UInt8}

/-- The name does not begin with white space. -/
theorem isWhitespace_name : ∀ c ∈ h.list.name.head?, isWhitespace c = false := fun c hc =>
  (isWordChar_cases (h.list.isWordChar_name c (List.mem_of_mem_head? hc))).2.1

/-- Words that Python reads as bytes are the bytes of the items. -/
theorem values_of_mapM {items : List Item}
    (hraw : (items.map Item.word).mapM (byteOf decimal) = .ok raw) :
    raw = items.map Item.value := by
  induction items generalizing raw with
  | nil =>
    cases hraw
    rfl
  | cons item items ih =>
    rw [List.map_cons, List.mapM_cons] at hraw
    cases hb : byteOf decimal item.word with
    | error e =>
      rw [hb] at hraw
      cases hraw
    | ok b =>
      cases hrest : (items.map Item.word).mapM (byteOf decimal) with
      | error e =>
        rw [hb, hrest] at hraw
        cases hraw
      | ok raw' =>
        rw [hb, hrest] at hraw
        cases hraw
        rw [value_of_byteOf decimal hb, ih hrest, List.map_cons]

/-- At the place of the definition, the rest is its body. -/
theorem rest_of_place (hfirst : FirstDefine h.list.name h.source before rest)
    (hplace : before.length = h.place) : rest = h.list.body ++ h.after := by
  obtain ⟨text, htext, hrest⟩ :=
    (definesAt_iff h.isWhitespace_name h.list.name_ne_nil).mp hfirst.here
  have hsplit : h.source = (h.before ++ h.list.indent) ++ ('#' :: h.list.directive ++ h.after) := by
    simp [source, ByteList.text]
  rw [hsplit] at htext
  obtain ⟨-, rfl⟩ := List.append_inj htext hplace.symm
  exact afterDefine_own h.list h.after hrest

/-- Bytes that are returned from the definition are those of its list. -/
theorem extractBytes_own (hfirst : FirstDefine h.list.name h.source before rest)
    (hplace : before.length = h.place)
    (hline : LogicalLine (rest.dropWhile isWhitespace) line) (hbraces : Braces line inner)
    (hraw : Literals decimal inner raw) : raw = h.list.bytes := by
  rw [logicalLine_iff.mp hline, h.rest_of_place hfirst hplace] at hbraces
  obtain rfl := (braces_own h.list h.after inner).mp hbraces
  rw [literals_iff, bytesOf, values_inner] at hraw
  exact values_of_mapM hraw

/-- Another text of the form `#define MACRO` comes first, and other bytes stand between the braces
on its line: as many, and written as literals that Python reads. -/
def Misled (decimal : Char → Option (Fin 10)) : Prop :=
  ∃ before rest line inner raw, FirstDefine h.list.name h.source before rest ∧
    before.length ≠ h.place ∧ LogicalLine (rest.dropWhile isWhitespace) line ∧
    Braces line inner ∧ Literals decimal inner raw ∧
    raw.length = h.list.bytes.length ∧ raw ≠ h.list.bytes

/-- `extract_bytes` returns the compiled bytes or ends the program, exactly if no other text
misleads it. -/
theorem extractBytes_iff (decimal : Char → Option (Fin 10)) :
    (∀ raw, extractBytes decimal h.source h.list.name h.list.bytes.length = .ok raw →
      raw = h.list.bytes) ↔ ¬ h.Misled decimal := by
  have hspec (raw : List UInt8) := extractBytes_eq_ok_iff decimal h.source h.list.bytes.length raw
    h.isWhitespace_name h.list.name_ne_nil
  constructor
  · rintro hall ⟨before, rest, line, inner, raw, hfirst, -, hline, hbraces, hraw, hlength, hne⟩
    have hok := (hspec raw).mpr ⟨before, rest, line, inner, hfirst, hline, hbraces, hraw, hlength⟩
    exact hne (hall raw hok)
  · intro hno raw hok
    obtain ⟨before, rest, line, inner, hfirst, hline, hbraces, hraw, hlength⟩ := (hspec raw).mp hok
    by_cases hplace : before.length = h.place
    · exact h.extractBytes_own hfirst hplace hline hbraces hraw
    · by_contra hne
      exact hno ⟨before, rest, line, inner, raw, hfirst, hplace, hline, hbraces, hraw, hlength,
        hne⟩

/-- Where nothing else misleads it, and Python reads the literals, `extract_bytes` returns the
bytes. -/
theorem extractBytes_eq (hfirst : FirstDefine h.list.name h.source (h.before ++ h.list.indent) rest)
    (hbytes : ∀ item ∈ h.list.items, byteOf decimal item.word = .ok item.value) :
    extractBytes decimal h.source h.list.name h.list.bytes.length = .ok h.list.bytes := by
  have hmap (items : List Item) (hitems : ∀ item ∈ items, byteOf decimal item.word =
    .ok item.value) :
      (items.map Item.word).mapM (byteOf decimal) = .ok (items.map Item.value) := by
    induction items with
    | nil => rfl
    | cons item items ih =>
      rw [List.forall_mem_cons] at hitems
      rw [List.map_cons, List.mapM_cons, hitems.1, ih hitems.2]
      rfl
  rw [extractBytes_eq_ok_iff decimal _ _ _ h.isWhitespace_name h.list.name_ne_nil]
  refine ⟨_, rest, _, withoutBackslashes h.list.inner, hfirst, logicalLine_iff.mpr rfl, ?_, ?_,
    rfl⟩
  · rw [h.rest_of_place hfirst rfl]
    exact (braces_own h.list h.after _).mpr rfl
  · rw [literals_iff, bytesOf, values_inner]
    exact hmap _ hbytes

end Header

end ExtractBytes

end PqcIot
