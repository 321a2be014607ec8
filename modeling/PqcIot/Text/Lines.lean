import Mathlib.Data.List.Infix
import Mathlib.Data.List.TakeWhile
import Mathlib.Tactic.Common

/-!
# Lines and parts of a text

`str.splitlines`, `str.strip` and `str.split` of Python, and what it means for a part without a line
break to occur in a text of several lines.
-/

namespace Text

/-! ## Occurrences -/

section Infix

variable {α : Type} {m x y l : List α} {a b : α}

/-- An occurrence at the beginning does not reach across an element that is not in it. -/
theorem prefix_append_cons_iff (ha : a ∉ m) : m <+: x ++ a :: y ↔ m <+: x := by
  induction x generalizing m with
  | nil =>
    cases m with
    | nil => simp
    | cons b m =>
      refine iff_of_false (fun h => ?_) (by simp)
      rw [List.nil_append, List.cons_prefix_cons] at h
      exact ha (h.1 ▸ List.mem_cons_self)
  | cons c x ih =>
    cases m with
    | nil => simp
    | cons b m =>
      rw [List.cons_append, List.cons_prefix_cons, List.cons_prefix_cons,
        ih fun hmem => ha (List.mem_cons_of_mem b hmem)]

/-- An occurrence is on one side of an element that is not in it. -/
theorem infix_append_cons_iff (ha : a ∉ m) : m <:+: x ++ a :: y ↔ m <:+: x ∨ m <:+: y := by
  induction x with
  | nil =>
    rw [List.nil_append, List.infix_cons_iff]
    have hnil := prefix_append_cons_iff (x := []) (y := y) ha
    rw [List.nil_append, List.prefix_nil] at hnil
    rw [hnil, List.infix_nil]
  | cons c x ih =>
    rw [List.cons_append, List.infix_cons_iff, ih, List.infix_cons_iff, ← List.cons_append,
      prefix_append_cons_iff ha, or_assoc]

/-- What begins otherwise occurs later. -/
theorem infix_cons_of_ne (hab : a ≠ b) : (a :: m) <:+: b :: l ↔ (a :: m) <:+: l := by
  rw [List.infix_cons_iff, List.cons_prefix_cons]
  exact or_iff_right fun h => hab h.1

end Infix

/-- Parts with something between them, in two groups. -/
theorem intercalate_append {α : Type} {sep : List α} {parts parts' : List (List α)} (h : parts ≠ [])
    (h' : parts' ≠ []) :
    sep.intercalate (parts ++ parts') = sep.intercalate parts ++ sep ++ sep.intercalate parts' := by
  induction parts with
  | nil => exact absurd rfl h
  | cons part parts ih =>
    rw [List.cons_append, List.intercalate_cons_of_ne_nil (by simp [h'])]
    cases parts with
    | nil => simp
    | cons part' parts =>
      rw [ih (by simp), List.intercalate_cons_cons]
      simp

/-- Lines as a program writes them, each ended. -/
def unlines (lines : List (List Char)) : List Char := (lines.map (· ++ ['\n'])).flatten

theorem intercalate_concat (lines : List (List Char)) (line : List Char) :
    ['\n'].intercalate (lines ++ [line]) = unlines lines ++ line := by
  induction lines with
  | nil => simp [unlines]
  | cons l lines ih =>
    rw [List.cons_append, List.intercalate_cons_of_ne_nil (by simp), ih]
    simp [unlines]

theorem unlines_append (lines lines' : List (List Char)) :
    unlines (lines ++ lines') = unlines lines ++ unlines lines' := by
  rw [unlines, List.map_append, List.flatten_append, unlines, unlines]

/-- The last line is ended, too. -/
theorem unlines_eq {lines : List (List Char)} (hne : lines ≠ []) :
    unlines lines = ['\n'].intercalate lines ++ ['\n'] := by
  obtain ⟨lines, line, rfl⟩ := (List.eq_nil_or_concat' lines).resolve_left hne
  rw [intercalate_concat, unlines_append]
  simp [unlines]

/-- A property of every element, as a computation. -/
theorem forall_mem_of_all {α : Type} {p : α → Prop} [DecidablePred p] {l : List α}
    (h : (l.all fun a => decide (p a)) = true) : ∀ a ∈ l, p a := by
  simpa using h

/-- A property of a string literal, from its characters. -/
theorem toList_ofList_induction (P : List Char → Prop) (chars : List Char) (h : P chars) :
    P (String.ofList chars).toList := by
  rwa [String.toList_ofList]

/-- The characters of some string literals. -/
inductive Literals : List String → List (List Char) → Prop
  | nil : Literals [] []
  | cons (chars : List Char) {strings : List String} {lines : List (List Char)}
    (h : Literals strings lines) : Literals (String.ofList chars :: strings) (chars :: lines)

theorem Literals.map_toList {strings : List String} {lines : List (List Char)}
    (h : Literals strings lines) : strings.map String.toList = lines := by
  induction h with
  | nil => rfl
  | cons chars _ ih => rw [List.map_cons, ih, String.toList_ofList]

/-- A property of string literals, from their characters. -/
theorem Literals.induction (P : List (List Char) → Prop) {strings : List String}
    {lines : List (List Char)} (h : Literals strings lines) (hP : P lines) :
    P (strings.map String.toList) := by
  rwa [h.map_toList]

/-! ## Functions of `str` -/

/-- The line boundaries of `str.splitlines`. -/
def isLineBreak (c : Char) : Bool :=
  c.toNat ∈ [0x0A, 0x0B, 0x0C, 0x0D, 0x1C, 0x1D, 0x1E, 0x85, 0x2028, 0x2029]

/-- `str.splitlines`, after the part `line` of the current line. -/
def splitlinesFrom (line : List Char) : List Char → List (List Char)
  | [] => if line.isEmpty then [] else [line]
  | '\r' :: '\n' :: rest => line :: splitlinesFrom [] rest
  | c :: rest =>
    if isLineBreak c then line :: splitlinesFrom [] rest else splitlinesFrom (line ++ [c]) rest

/-- `str.splitlines`. -/
def splitlines (text : List Char) : List (List Char) := splitlinesFrom [] text

/-- `str.isspace`. -/
def isWhitespace (c : Char) : Bool :=
  c.toNat ∈ [0x20, 0x85, 0xA0, 0x1680, 0x2028, 0x2029, 0x202F, 0x205F, 0x3000] ||
    (0x09 ≤ c.toNat && c.toNat ≤ 0x0D) || (0x1C ≤ c.toNat && c.toNat ≤ 0x1F) ||
    (0x2000 ≤ c.toNat && c.toNat ≤ 0x200A)

/-- `str.strip`. -/
def strip (text : List Char) : List Char :=
  ((text.dropWhile isWhitespace).reverse.dropWhile isWhitespace).reverse

/-- `strip` removes the white space around a text without any. -/
theorem strip_pad (left word right : List Char) (hleft : ∀ c ∈ left, isWhitespace c = true)
    (hword : ∀ c ∈ word, isWhitespace c = false) (hright : ∀ c ∈ right, isWhitespace c = true) :
    strip (left ++ word ++ right) = word := by
  have hself (chars : List Char) (h : ∀ c ∈ chars.head?, isWhitespace c = false) :
      chars.dropWhile isWhitespace = chars := by
    cases chars with
    | nil => rfl
    | cons c chars => rw [List.dropWhile_cons_of_neg (by simpa using h)]
  rw [strip, List.append_assoc, List.dropWhile_append_of_pos hleft]
  by_cases hnil : word = []
  · have hall : right.dropWhile isWhitespace = [] := List.dropWhile_eq_nil_iff.mpr hright
    rw [hnil, List.nil_append, hall]
    rfl
  · have hfirst : (word ++ right).dropWhile isWhitespace = word ++ right := by
      refine hself _ fun c hc => hword c ?_
      obtain ⟨d, word, rfl⟩ := List.exists_cons_of_ne_nil hnil
      rw [List.cons_append, List.head?_cons, Option.mem_some_iff] at hc
      exact hc ▸ List.mem_cons_self
    have hlast : word.reverse.dropWhile isWhitespace = word.reverse :=
      hself _ fun c hc => hword c (List.mem_reverse.mp (List.mem_of_mem_head? hc))
    rw [hfirst, List.reverse_append, List.dropWhile_append_of_pos fun c hc =>
      hright c (List.mem_reverse.mp hc), hlast, List.reverse_reverse]

/-- `text.split(sep, 1)[1]`, where `sep` occurs in the text. -/
def afterFirst (sep : List Char) : List Char → List Char
  | [] => []
  | c :: rest => if sep <+: c :: rest then (c :: rest).drop sep.length else afterFirst sep rest

end Text
