import Mathlib.Data.List.DropRight
import PqcIot.Text.Lines

/-!
# `grep`

Lines and occurrences as `grep -q` and `grep -qx` decide them, for regular expressions that are a
sequence of character classes: no alternatives, and every repetition of a fixed number.
-/

namespace Text

/-- A regular expression of fixed length: the class of each of its characters. -/
abbrev Pattern : Type := List (Char → Bool)

namespace Pattern

/-- The expression for the characters themselves. -/
def literal (chars : List Char) : Pattern := chars.map fun c d => d == c

/-- A basic regular expression whose only special character is the dot. -/
def dotted (chars : List Char) : Pattern :=
  chars.map fun c => if c = '.' then fun _ => true else fun d => d == c

/-- The expression matches at the beginning. -/
def matchesAt : Pattern → List Char → Bool
  | [], _ => true
  | _ :: _, [] => false
  | cls :: p, c :: text => cls c && matchesAt p text

/-- The expression matches somewhere. -/
def occurs (p : Pattern) : List Char → Bool
  | [] => p.matchesAt []
  | c :: text => p.matchesAt (c :: text) || occurs p text

/-- The expression matches the whole line. -/
def matchesLine (p : Pattern) (line : List Char) : Bool :=
  p.length == line.length && p.matchesAt line

/-- The expression fails within the given characters. -/
def failsIn : Pattern → List Char → Bool
  | cls :: p, c :: text => !cls c || failsIn p text
  | _, _ => false

/-- The expression fails within the given characters wherever it starts in them. -/
def skips (p : Pattern) : List Char → Bool
  | [] => true
  | c :: text => p.failsIn (c :: text) && skips p text

section

variable (p : Pattern) {x y : List Char} {c : Char}

theorem matchesAt_append_of_failsIn (h : p.failsIn x = true) : p.matchesAt (x ++ y) = false := by
  induction x generalizing p with
  | nil => cases p <;> simp [failsIn] at h
  | cons c x ih =>
    cases p with
    | nil => simp [failsIn] at h
    | cons cls p =>
      rw [failsIn, Bool.or_eq_true] at h
      rw [List.cons_append, matchesAt, Bool.and_eq_false_iff]
      exact h.imp (by simp) (ih p)

/-- An occurrence lies behind what the expression skips. -/
theorem occurs_append_of_skips (h : p.skips x = true) : p.occurs (x ++ y) = p.occurs y := by
  induction x with
  | nil => rfl
  | cons c x ih =>
    rw [skips, Bool.and_eq_true] at h
    have hfail := p.matchesAt_append_of_failsIn (y := y) h.1
    rw [List.cons_append] at hfail
    rw [List.cons_append, occurs, hfail, ih h.2, Bool.false_or]

/-- A match does not reach a character that no class contains. -/
theorem matchesAt_append_cons (hc : ∀ cls ∈ p, cls c = false) :
    p.matchesAt (x ++ c :: y) = p.matchesAt x := by
  induction x generalizing p with
  | nil =>
    cases p with
    | nil => rfl
    | cons cls p => simp [matchesAt, hc cls List.mem_cons_self]
  | cons d x ih =>
    cases p with
    | nil => rfl
    | cons cls p =>
      rw [List.cons_append, matchesAt, matchesAt,
        ih p fun cls h => hc cls (List.mem_cons_of_mem _ h)]

/-- An occurrence lies on one side of a character that no class contains. -/
theorem occurs_append_cons (hc : ∀ cls ∈ p, cls c = false) :
    p.occurs (x ++ c :: y) = (p.occurs x || p.occurs y) := by
  induction x with
  | nil =>
    have hmatch := p.matchesAt_append_cons (x := []) (y := y) hc
    rw [List.nil_append] at hmatch
    rw [List.nil_append, occurs, occurs, hmatch]
  | cons d x ih =>
    have hmatch := p.matchesAt_append_cons (x := d :: x) (y := y) hc
    rw [List.cons_append] at hmatch
    rw [List.cons_append, occurs, hmatch, ih, occurs, Bool.or_assoc]

/-- There is no match where no character is in one of the classes. -/
theorem matchesAt_eq_false {cls : Char → Bool} (hcls : cls ∈ p) (hx : ∀ d ∈ x, cls d = false) :
    p.matchesAt x = false := by
  induction x generalizing p with
  | nil =>
    cases p with
    | nil => cases hcls
    | cons => rfl
  | cons d x ih =>
    cases p with
    | nil => cases hcls
    | cons cls' p =>
      rw [matchesAt, Bool.and_eq_false_iff]
      rcases List.mem_cons.mp hcls with rfl | hcls
      · exact .inl (hx d List.mem_cons_self)
      · exact .inr (ih p hcls fun e he => hx e (List.mem_cons_of_mem d he))

/-- Nothing occurs where no character is in one of the classes. -/
theorem occurs_eq_false {cls : Char → Bool} (hcls : cls ∈ p) (hx : ∀ d ∈ x, cls d = false) :
    p.occurs x = false := by
  induction x with
  | nil => exact p.matchesAt_eq_false hcls hx
  | cons d x ih =>
    rw [occurs, p.matchesAt_eq_false hcls hx, ih fun e he => hx e (List.mem_cons_of_mem d he)]
    rfl

theorem matchesAt_append (q : Pattern) (hx : p.length = x.length) :
    matchesAt (p ++ q) (x ++ y) = (p.matchesAt x && q.matchesAt y) := by
  induction x generalizing p with
  | nil =>
    obtain rfl := List.length_eq_zero_iff.mp hx
    rfl
  | cons c x ih =>
    cases p with
    | nil => simp at hx
    | cons cls p =>
      rw [List.cons_append, List.cons_append, matchesAt, matchesAt,
        ih p (Nat.succ.inj hx), Bool.and_assoc]

end

theorem matchesAt_literal_iff (chars text : List Char) :
    matchesAt (literal chars) text = true ↔ chars <+: text := by
  induction chars generalizing text with
  | nil => simp [literal, matchesAt]
  | cons c chars ih =>
    cases text with
    | nil => simp [literal, matchesAt]
    | cons d text =>
      have hrest := ih text
      rw [literal] at hrest
      rw [literal, List.map_cons, matchesAt, Bool.and_eq_true, hrest, List.cons_prefix_cons,
        beq_iff_eq, eq_comm]

/-- The characters themselves occur as a part of the text. -/
theorem occurs_literal_iff (chars text : List Char) :
    occurs (literal chars) text = true ↔ chars <:+: text := by
  induction text with
  | nil => rw [occurs, matchesAt_literal_iff, List.prefix_nil, List.infix_nil]
  | cons c text ih =>
    rw [occurs, Bool.or_eq_true, matchesAt_literal_iff, ih, List.infix_cons_iff]

/-- A file's own path is among those that its expression stands for. -/
theorem matchesLine_dotted (chars : List Char) : matchesLine (dotted chars) chars = true := by
  rw [matchesLine, dotted, List.length_map, beq_self_eq_true, Bool.true_and]
  induction chars with
  | nil => rfl
  | cons c chars ih =>
    rw [List.map_cons, matchesAt, ih, Bool.and_true]
    split <;> simp

end Pattern

/-! ## Commands -/

/-- The lines that `grep` reads; the last one need not be ended. -/
def inputLines (text : List Char) : List (List Char) :=
  let lines := text.splitOn '\n'
  if lines.getLast? = some [] then lines.dropLast else lines

/-- `grep -q`, over the lines of its input. -/
def grepQ (p : Pattern) (lines : List (List Char)) : Bool := lines.any p.occurs

/-- `grep -qx`, over the lines of its input. -/
def grepQx (p : Pattern) (lines : List (List Char)) : Bool := lines.any p.matchesLine

/-- `$(…)`: what the command wrote, without null characters and without line breaks at the end. -/
def substitution (output : List Char) : List Char :=
  (output.filter (· ≠ '\x00')).rdropWhile (· == '\n')

/-- A line of a text file. -/
structure IsLine (line : List Char) : Prop where
  lineBreak : '\n' ∉ line
  null : '\x00' ∉ line

instance : DecidablePred IsLine := fun _ =>
  decidable_of_iff (_ ∧ _) ⟨fun h => ⟨h.1, h.2⟩, fun h => ⟨h.1, h.2⟩⟩

theorem IsLine.append {x y : List Char} (hx : IsLine x) (hy : IsLine y) : IsLine (x ++ y) :=
  ⟨fun h => (List.mem_append.mp h).elim hx.1 hy.1, fun h => (List.mem_append.mp h).elim hx.2 hy.2⟩

/-- The shell passes the lines of a file on as they are, if the last one is not empty. -/
theorem inputLines_substitution {lines : List (List Char)} {line : List Char}
    (hlines : ∀ l ∈ lines, IsLine l) (hline : IsLine line) (hne : line ≠ []) :
    inputLines (substitution (unlines (lines ++ [line]))) = lines ++ [line] := by
  have hall : ∀ l ∈ lines ++ [line], IsLine l := by
    simpa [or_imp, forall_and] using ⟨hlines, hline⟩
  have hnul : ∀ c ∈ unlines (lines ++ [line]), c ≠ '\x00' := by
    rintro c hc rfl
    obtain ⟨l, hl, hmem⟩ : ∃ l ∈ lines ++ [line], '\x00' ∈ l ++ ['\n'] := by
      simpa [unlines] using hc
    exact (hall l hl).2 (by simpa using hmem)
  have hunlines : unlines (lines ++ [line]) = ['\n'].intercalate (lines ++ [line]) ++ ['\n'] :=
    unlines_eq (by simp)
  have hsub : substitution (unlines (lines ++ [line])) = ['\n'].intercalate (lines ++ [line]) := by
    rw [substitution, List.filter_eq_self.mpr (by simpa using hnul), hunlines,
      List.rdropWhile_concat_pos _ _ _ (by simp), intercalate_concat]
    -- The last line ends in a character that is not dropped.
    obtain ⟨init, c, rfl⟩ : ∃ init c, line = init ++ [c] :=
      ⟨line.dropLast, line.getLast hne, (List.dropLast_append_getLast hne).symm⟩
    have hc : c ≠ '\n' := fun h => hline.1 (by simp [h])
    rw [← List.append_assoc, List.rdropWhile_concat_neg _ _ _ (by simpa using hc)]
  rw [hsub, inputLines, List.splitOn_intercalate _ (fun l hl => (hall l hl).1) (by simp)]
  simp [hne]

end Text
