import PqcIot.Text.Arrays

/-!
# Expanding macros

Where a C text uses the name of a macro, what stands for the macro is read. A macro is one for the
whole text, and has no parameters.

* `expand` — tokens with the macros in them expanded, and what is left within those;
* `Codes` — what some lines define, and the tokens of their code before the macros are expanded.
-/

namespace Text.C

/-! ## Expansion -/

/-- The macros with another name. -/
def others (ms : List (List Char × List Token)) (w : List Char) : List (List Char × List Token) :=
  ms.filter (·.1 ≠ w)

/-- Replaces the names of macros by what stands for them; in what stands for a macro, its own name
stays as it is. -/
def expand (ms : List (List Char × List Token)) (toks : List Token) : List Token :=
  toks.flatMap fun
    | .word w =>
      match _hfind : ms.find? (·.1 = w) with
      | some m => expand (others ms w) m.2
      | none => [.word w]
    | .quoted q chars => [.quoted q chars]
    | .punct c => [.punct c]
termination_by ms.length
decreasing_by
  have hname : m.1 = w := by simpa using List.find?_some _hfind
  refine List.length_filter_lt_length_iff_exists.mpr ⟨m, List.mem_of_find?_eq_some _hfind, ?_⟩
  simp [hname]

/-- The arrays of constant bytes that a text declares with the macros that it defines. -/
def expandedArrays (text : List Char) : List ArrayDef :=
  declared (expand (macros text) (codeTokens text))

section Expand

variable {ms : List (List Char × List Token)} {toks : List Token}

theorem expand_append (toks toks' : List Token) :
    expand ms (toks ++ toks') = expand ms toks ++ expand ms toks' := by
  rw [expand, expand, expand, List.flatMap_append]

/-- No macro has this name. -/
def NoMacro (ms : List (List Char × List Token)) (w : List Char) : Prop := w ∉ ms.map Prod.fst

theorem expand_word_of_noMacro {w : List Char} (h : NoMacro ms w) :
    expand ms [.word w] = [.word w] := by
  have hnone : ms.find? (·.1 = w) = none := by
    rw [List.find?_eq_none]
    exact fun m hm hname => h (List.mem_map.mpr ⟨m, hm, of_decide_eq_true hname⟩)
  rw [expand, List.flatMap_singleton]
  dsimp only
  split
  · next m hm => cases hnone.symm.trans hm
  · rfl

/-- Tokens among which there is no name of a macro. -/
theorem expand_of_noMacro (h : ∀ w, .word w ∈ toks → NoMacro ms w) : expand ms toks = toks := by
  induction toks with
  | nil => rw [expand, List.flatMap_nil]
  | cons t toks ih =>
    have htail := ih fun w hw => h w (List.mem_cons_of_mem t hw)
    have hhead : expand ms [t] = [t] := by
      cases t with
      | word w => exact expand_word_of_noMacro (h w List.mem_cons_self)
      | quoted q chars => rw [expand, List.flatMap_singleton]
      | punct c => rw [expand, List.flatMap_singleton]
    rw [← List.singleton_append, expand_append, hhead, htail]

/-- A macro that stands for tokens without names of other macros. -/
theorem expand_word {w : List Char} (h : ms.find? (·.1 = w) = some (w, toks))
    (htoks : ∀ w', .word w' ∈ toks → w' = w ∨ NoMacro ms w') : expand ms [.word w] = toks := by
  have hrest : expand (others ms w) toks = toks := by
    refine expand_of_noMacro fun w' hw' hmem => ?_
    obtain ⟨m, hm, rfl⟩ := List.mem_map.mp hmem
    obtain ⟨hmem, hne⟩ := List.mem_filter.mp hm
    rcases htoks m.1 hw' with heq | hno
    · simp [heq] at hne
    · exact hno (List.mem_map_of_mem hmem)
  rw [expand, List.flatMap_singleton]
  dsimp only
  split
  · next m hm =>
    obtain rfl := Option.some.inj (h.symm.trans hm)
    exact hrest
  · next hnone => cases h.symm.trans hnone

end Expand

/-! ## Lines -/

/-- The lines are complete, define these macros, and have these tokens outside of directives. -/
structure Codes (lines : List (List Char)) (ms : List (List Char × List Token))
    (toks : List Token) : Prop where
  complete : ∀ x ∈ lines, Complete x
  macros : lines.flatMap macros = ms
  code : lines.flatMap codeTokens = toks

namespace Codes

variable {x : List Char} {lines lines' : List (List Char)}
  {ms ms' : List (List Char × List Token)} {toks toks' : List Token}

theorem nil : Codes [] [] [] := ⟨List.forall_mem_nil _, rfl, rfl⟩

theorem append (h : Codes lines ms toks) (h' : Codes lines' ms' toks') :
    Codes (lines ++ lines') (ms ++ ms') (toks ++ toks') := by
  refine ⟨List.forall_mem_append.mpr ⟨h.complete, h'.complete⟩, ?_, ?_⟩
  · rw [List.flatMap_append, h.macros, h'.macros]
  · rw [List.flatMap_append, h.code, h'.code]

theorem cons (h : Codes [x] ms toks) (h' : Codes lines ms' toks') :
    Codes (x :: lines) (ms ++ ms') (toks ++ toks') := h.append h'

theorem line (h : Complete x ∧ C.macros x = ms ∧ codeTokens x = toks) : Codes [x] ms toks := by
  obtain ⟨hcomplete, rfl, rfl⟩ := h
  exact ⟨by simpa using hcomplete, by simp, by simp⟩

/-- The definition of a macro as one word. -/
theorem define {name w : List Char} (hname : name ≠ [] ∧ ∀ c ∈ name, isWordChar c = true)
    (hw : w ≠ [] ∧ ∀ c ∈ w, isWordChar c = true) :
    Codes ["#define ".toList ++ name ++ ' ' :: w] [(name, [.word w])] [] := by
  have hdefine : Reads ['d', 'e', 'f', 'i', 'n', 'e'] [.word ['d', 'e', 'f', 'i', 'n', 'e']] :=
    .word (by decide) (forall_mem_of_all (by decide))
  have hreads := Reads.punct_cons '#'
    (hdefine.space ((Reads.word hname.1 hname.2).space (.word hw.1 hw.2)))
  have htext : "#define ".toList ++ name ++ ' ' :: w =
      '#' :: (['d', 'e', 'f', 'i', 'n', 'e'] ++ ' ' :: (name ++ ' ' :: w)) := by
    simp only [String.reduceToList, List.cons_append, List.nil_append]
  rw [htext]
  exact line (hreads.directive rfl)

/-- Lines of code that are made from the elements of a list. -/
theorem flatMap {ι : Type} {text : ι → List Char} {code : ι → List Token} {l : List ι}
    (h : ∀ i ∈ l, Codes [text i] [] (code i)) : Codes (l.map text) [] (l.flatMap code) := by
  induction l with
  | nil => exact nil
  | cons i l ih =>
    rw [List.forall_mem_cons] at h
    exact h.1.append (ih h.2)

/-- What is read of the text. -/
theorem text (h : Codes lines ms toks) : C.macros (['\n'].intercalate lines) = ms ∧
    codeTokens (['\n'].intercalate lines) = toks := by
  obtain ⟨-, hmacros, hcode⟩ := lines_read h.complete
  exact ⟨hmacros.trans h.macros, hcode.trans h.code⟩

end Codes

/-- Parts with a space between each two of them. -/
theorem Reads.intercalate {ι : Type} {text : ι → List Char} {code : ι → List Token} {l : List ι}
    (h : ∀ i ∈ l, Reads (text i) (code i)) :
    Reads ([' '].intercalate (l.map text)) (l.flatMap code) := by
  induction l with
  | nil => exact .nil
  | cons i l ih =>
    rw [List.forall_mem_cons] at h
    cases l with
    | nil => simpa using h.1
    | cons j l =>
      have hrest := ih h.2
      rw [List.map_cons] at hrest
      rw [List.map_cons, List.map_cons, List.intercalate_cons_cons, List.flatMap_cons,
        List.append_assoc, List.singleton_append]
      exact h.1.space hrest

/-- Slices of one width, one behind the other. -/
theorem flatMap_slices {α : Type} (width : ℕ) (l : List α) (start count : ℕ) :
    ((List.range' start count width).flatMap fun i => (l.drop i).take width) =
      (l.drop start).take (width * count) := by
  induction count generalizing start with
  | zero => simp
  | succ count ih =>
    rw [List.range'_succ, List.flatMap_cons, ih, Nat.mul_succ, Nat.add_comm (width * count),
      List.take_add, List.drop_drop]

end Text.C
