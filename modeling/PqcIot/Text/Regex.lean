import PqcIot.Text.Lines

/-!
# Regular expressions of a backtracking engine

What `re.search` finds: the candidates of an expression at a place in the order in which the engine
tries them, and the group of the first one at the leftmost place. Repetitions are greedy or lazy.
-/

namespace Text

/-- A regular expression. -/
inductive Regex where
  | empty
  | char (cls : Char → Bool)
  | seq (r s : Regex)
  | star (greedy : Bool) (r : Regex)

namespace Regex

/-- A way to match: the matched characters, and what follows. -/
abbrev Match : Type := List Char × List Char

/-- The match that begins with more characters. -/
def Match.after (x : List Char) (m : Match) : Match := (x ++ m.1, m.2)

/-- Each way to match, continued in each way. -/
def followed (ways : List Match) (next : List Char → List Match) : List Match :=
  ways.flatMap fun m => (next m.2).map (Match.after m.1)

/-- At most `n` repetitions, each of which matches some characters. -/
def repetitions (greedy : Bool) (step : List Char → List Match) : ℕ → List Char → List Match
  | 0, text => [([], text)]
  | n + 1, text =>
    let more := followed ((step text).filter (·.1 ≠ [])) (repetitions greedy step n)
    if greedy then more ++ [([], text)] else ([], text) :: more

/-- The ways to match at the beginning, in the order in which they are tried. -/
def candidates : Regex → List Char → List Match
  | empty, text => [([], text)]
  | char _, [] => []
  | char cls, c :: text => if cls c then [([c], text)] else []
  | seq r s, text => followed (candidates r text) (candidates s)
  | star greedy r, text => repetitions greedy (candidates r) text.length text

/-- One or more. -/
def plus (r : Regex) : Regex := seq r (star true r)

/-- The characters themselves. -/
def literal : List Char → Regex
  | [] => empty
  | c :: chars => seq (char (· == c)) (literal chars)

/-- What the group matches where `before(group)after` matches at the beginning. -/
def groupAt (before group after : Regex) (text : List Char) : Option (List Char) :=
  ((candidates before text).flatMap fun m => (candidates group m.2).flatMap fun m' =>
    (candidates after m'.2).map fun _ => m'.1).head?

/-- What the group matches in the leftmost match of `before(group)after`. -/
def findGroup (before group after : Regex) : List Char → Option (List Char)
  | [] => groupAt before group after []
  | c :: text => (groupAt before group after (c :: text)).or (findGroup before group after text)

/-! ## Candidates -/

section

variable {r s : Regex} {x text rest : List Char} {c : Char} {cls : Char → Bool} {greedy : Bool}

/-- A way to match, continued by another one. -/
theorem mem_followed {ways : List Match} {next : List Char → List Match} {m : Match} :
    m ∈ followed ways next ↔ ∃ m' ∈ ways, ∃ m'' ∈ next m'.2, m''.after m'.1 = m := by
  simp only [followed, List.mem_flatMap, List.mem_map]

/-- The ways that continue the first one come first. -/
theorem followed_cons (m : Match) (ways : List Match) (next : List Char → List Match) :
    followed (m :: ways) next = (next m.2).map (Match.after m.1) ++ followed ways next :=
  List.flatMap_cons

/-- The order of the ways is kept. -/
theorem followed_append (ways ways' : List Match) (next : List Char → List Match) :
    followed (ways ++ ways') next = followed ways next ++ followed ways' next :=
  List.flatMap_append

/-- A repetition matches nothing, or its expression and then fewer repetitions. -/
theorem mem_repetitions_succ {step : List Char → List Match} {n : ℕ} {m : Match} :
    m ∈ repetitions greedy step (n + 1) text ↔ m = ([], text) ∨
      m ∈ followed ((step text).filter (·.1 ≠ [])) (repetitions greedy step n) := by
  rw [repetitions]
  cases greedy <;> simp [or_comm]

/-- Ways that split the text, continued by such ways, split it. -/
theorem append_of_mem_followed {ways : List Match} {next : List Char → List Match} {m : Match}
    (hways : ∀ m ∈ ways, m.1 ++ m.2 = text) (hnext : ∀ text, ∀ m ∈ next text, m.1 ++ m.2 = text)
    (h : m ∈ followed ways next) : m.1 ++ m.2 = text := by
  obtain ⟨m', hm', m'', hm'', rfl⟩ := mem_followed.mp h
  rw [Match.after, List.append_assoc, hnext _ m'' hm'', hways m' hm']

/-- The matched characters and what follows are the text. -/
theorem append_of_mem {m : Match} (h : m ∈ candidates r text) : m.1 ++ m.2 = text := by
  induction r generalizing text m with
  | empty =>
    rw [List.mem_singleton.mp h]
    rfl
  | char cls =>
    cases text with
    | nil => cases h
    | cons c text =>
      rw [candidates] at h
      split at h
      · rw [List.mem_singleton.mp h]
        rfl
      · cases h
  | seq r s ihr ihs =>
    exact append_of_mem_followed (fun _ => ihr) (fun _ _ => ihs) h
  | star greedy r ih =>
    rw [candidates] at h
    -- The length only bounds the repetitions.
    generalize text.length = n at h
    induction n generalizing text m with
    | zero =>
      rw [List.mem_singleton.mp h]
      rfl
    | succ n ihn =>
      rcases mem_repetitions_succ.mp h with rfl | h
      · rfl
      · exact append_of_mem_followed (fun m hm => ih (List.mem_of_mem_filter hm))
          (fun _ _ => ihn) h

/-- Only what follows the ways matters. -/
theorem followed_congr {ways : List Match} {next next' : List Char → List Match}
    (h : ∀ m ∈ ways, next m.2 = next' m.2) : followed ways next = followed ways next' :=
  List.flatMap_congr fun m hm => by rw [h m hm]

/-- Nothing can be repeated at the end of the text. -/
theorem repetitions_nil (n : ℕ) : repetitions greedy (candidates r) n [] = [([], [])] := by
  cases n with
  | zero => rfl
  | succ n =>
    have hnone : (candidates r []).filter (·.1 ≠ []) = [] := by
      rw [List.filter_eq_nil_iff]
      intro m hm
      have happend := append_of_mem hm
      simp [(List.append_eq_nil_iff.mp happend).1]
    rw [repetitions, hnone]
    cases greedy <;> rfl

/-- More repetitions than there are characters make no difference. -/
theorem repetitions_stable {n k : ℕ} (hn : text.length ≤ n) (hk : text.length ≤ k) :
    repetitions greedy (candidates r) n text = repetitions greedy (candidates r) k text := by
  induction n generalizing k text with
  | zero =>
    obtain rfl : text = [] := List.length_eq_zero_iff.mp (Nat.le_zero.mp hn)
    rw [repetitions_nil, repetitions_nil]
  | succ n ih =>
    cases k with
    | zero =>
      obtain rfl : text = [] := List.length_eq_zero_iff.mp (Nat.le_zero.mp hk)
      rw [repetitions_nil, repetitions_nil]
    | succ k =>
      -- What is left after a repetition is shorter than the text.
      have hshort : ∀ m ∈ (candidates r text).filter (·.1 ≠ []), m.2.length < text.length := by
        intro m hm
        obtain ⟨hmem, hne⟩ := List.mem_filter.mp hm
        rw [← append_of_mem hmem, List.length_append]
        have hpos : 0 < m.1.length := List.length_pos_iff.mpr (by simpa using hne)
        omega
      rw [repetitions, repetitions,
        followed_congr fun m hm => ih (k := k) (by have := hshort m hm; omega)
        (by have := hshort m hm; omega)]

/-- A repetition is its expression, repeated, or nothing. -/
theorem candidates_star : candidates (star greedy r) text =
    let more := followed ((candidates r text).filter (·.1 ≠ [])) (candidates (star greedy r))
    if greedy then more ++ [([], text)] else ([], text) :: more := by
  have hmore : followed ((candidates r text).filter (·.1 ≠ []))
      (repetitions greedy (candidates r) text.length) =
      followed ((candidates r text).filter (·.1 ≠ [])) (candidates (star greedy r)) := by
    refine followed_congr fun m hm => ?_
    have hlength := congrArg List.length (append_of_mem (List.mem_of_mem_filter hm))
    rw [List.length_append] at hlength
    exact repetitions_stable (by omega) le_rfl
  rw [candidates, repetitions_stable le_rfl (Nat.le_succ _), repetitions, hmore]

/-! ## Repeated characters -/

/-- The ways to match characters of a class, most of them first. -/
theorem candidates_star_char (cls : Char → Bool) (c : Char) (text : List Char) :
    candidates (star true (char cls)) (c :: text) =
      (if cls c then (candidates (star true (char cls)) text).map (Match.after [c]) else []) ++
        [([], c :: text)] := by
  rw [candidates_star, candidates]
  split <;> simp [followed]

/-- Characters before characters. -/
theorem after_comp_after (x y : List Char) :
    Match.after x ∘ Match.after y = Match.after (x ++ y) :=
  funext fun m => by simp [Match.after]

/-- Characters before all of the ways. -/
theorem followed_map_after (x : List Char) (ways : List Match) (next : List Char → List Match) :
    followed (ways.map (Match.after x)) next = (followed ways next).map (Match.after x) := by
  simp [followed, List.flatMap_map, List.map_flatMap, after_comp_after, Match.after]

/-- What cannot begin with a character of the class follows all of them. -/
theorem candidates_seq_star_char (hs : ∀ c text, cls c = true → candidates s (c :: text) = []) :
    candidates (seq (star true (char cls)) s) text =
      (candidates s (text.dropWhile cls)).map (Match.after (text.takeWhile cls)) := by
  induction text with
  | nil => simp [candidates, repetitions, followed]
  | cons c text ih =>
    rw [candidates, candidates_star_char]
    rw [candidates] at ih
    by_cases hc : cls c = true
    · have hlast : followed [([], c :: text)] (candidates s) = [] := by
        simp [followed, hs c text hc]
      rw [if_pos hc, followed_append, hlast, List.append_nil, followed_map_after, ih, List.map_map,
        after_comp_after, List.takeWhile_cons_of_pos hc, List.dropWhile_cons_of_pos hc]
      rfl
    · rw [if_neg hc, List.takeWhile_cons_of_neg hc, List.dropWhile_cons_of_neg hc, List.nil_append,
        followed_cons]
      simp [followed]

/-! ## First candidates -/

/-- The way to match that is tried first. -/
def first (r : Regex) (text : List Char) : Option Match := (candidates r text).head?

/-- A sequence whose second part always matches begins with the first way of its first part. -/
theorem first_seq (hs : ∀ text, first s text ≠ none) : first (seq r s) text =
    (first r text).bind fun m => (first s m.2).map (Match.after m.1) := by
  rw [first, first, candidates]
  cases h : candidates r text with
  | nil => rfl
  | cons m ways =>
    obtain ⟨m', hm'⟩ := Option.ne_none_iff_exists'.mp (hs m.2)
    rw [followed_cons, List.head?_append, List.head?_map]
    simp only [first] at hm'
    simp [hm', first]

/-- A greedy repetition matches. -/
theorem first_star_ne_none (text : List Char) : first (star true r) text ≠ none := by
  rw [first, candidates_star]
  simp

/-- An expression that does not match is not repeated. -/
theorem first_star_of_none (h : first r text = none) :
    first (star true r) text = some ([], text) := by
  rw [first, List.head?_eq_none_iff] at h
  rw [first, candidates_star, h]
  rfl

/-- The first way to match is taken, and the repetition goes on behind it. -/
theorem first_star_of_some {m : Match} (h : first r text = some m) (hne : m.1 ≠ []) :
    first (star true r) text = (first (star true r) m.2).map (Match.after m.1) := by
  obtain ⟨ways, hways⟩ := List.head?_eq_some_iff.mp h
  obtain ⟨m', hm'⟩ := Option.ne_none_iff_exists'.mp (first_star_ne_none (r := r) m.2)
  rw [hm', first, candidates_star, hways, List.filter_cons_of_pos (by simpa using hne), if_pos rfl,
    followed_cons, List.append_assoc, List.head?_append, List.head?_map]
  rw [first] at hm'
  rw [hm']
  rfl

/-- A greedy repetition of a class takes all of its characters. -/
theorem first_star_char (cls : Char → Bool) (text : List Char) :
    first (star true (char cls)) text = some (text.takeWhile cls, text.dropWhile cls) := by
  induction text with
  | nil => rfl
  | cons c text ih =>
    by_cases hc : cls c = true
    · have hone : first (char cls) (c :: text) = some ([c], text) := by simp [first, candidates, hc]
      rw [first_star_of_some hone (by simp), ih, List.takeWhile_cons_of_pos hc,
        List.dropWhile_cons_of_pos hc]
      rfl
    · have hnone : first (char cls) (c :: text) = none := by simp [first, candidates, hc]
      rw [first_star_of_none hnone, List.takeWhile_cons_of_neg hc, List.dropWhile_cons_of_neg hc]

/-- Characters match in one way at most. -/
theorem candidates_literal (chars text : List Char) : candidates (literal chars) text =
    if chars <+: text then [(chars, text.drop chars.length)] else [] := by
  induction chars generalizing text with
  | nil => simp [literal, candidates]
  | cons d chars ih =>
    cases text with
    | nil => simp [literal, candidates, followed]
    | cons c text =>
      by_cases hc : c = d
      · subst hc
        have hprefix : (c :: chars) <+: c :: text ↔ chars <+: text := by simp
        simp only [literal, candidates, followed, beq_self_eq_true, if_true, List.flatMap_cons,
          List.flatMap_nil, List.append_nil, ih, hprefix]
        split <;> simp [Match.after]
      · have hprefix : ¬ (d :: chars) <+: c :: text := by simp [Ne.symm hc]
        simp [literal, candidates, followed, hc, hprefix]

/-- Sequences associate. -/
theorem candidates_seq_assoc {q : Regex} :
    candidates (seq (seq r s) q) text = candidates (seq r (seq s q)) text := by
  simp only [candidates, followed, List.flatMap_assoc]
  refine List.flatMap_congr fun m _ => ?_
  simp [List.flatMap_map, List.map_flatMap, after_comp_after, Match.after]

/-- What follows them is matched behind them. -/
theorem candidates_seq_literal (chars : List Char) : candidates (seq (literal chars) s) text =
    if chars <+: text then (candidates s (text.drop chars.length)).map
      (Match.after chars) else [] := by
  rw [candidates, candidates_literal]
  split <;> simp [followed]

/-- The same for one character. -/
theorem candidates_seq_char_cons : candidates (seq (char cls) s) (c :: text) =
    if cls c then (candidates s text).map (Match.after [c]) else [] := by
  rw [candidates, candidates]
  split <;> simp [followed]

/-! ## Groups -/

/-- The group that is found follows the first way to match what stands before it. -/
theorem groupAt_empty (hs : ∀ text, first s text ≠ none) : groupAt r s empty text =
    (first r text).bind fun m => (first s m.2).map (·.1) := by
  rw [groupAt, first]
  cases h : candidates r text with
  | nil => rfl
  | cons m ways =>
    obtain ⟨m', hm'⟩ := Option.ne_none_iff_exists'.mp (hs m.2)
    obtain ⟨ways', hways'⟩ := List.head?_eq_some_iff.mp hm'
    simp [candidates, hways', hm']

/-- The characters before the first `z`. -/
theorem takeWhile_append_of_not_mem {z : Char} (hx : z ∉ x) :
    (x ++ z :: rest).takeWhile (· != z) = x := by
  rw [List.takeWhile_append_of_pos fun d hd => by simpa using fun h : d = z => hx (h ▸ hd)]
  simp

/-- Where `z` stands, the text is split at the first one. -/
theorem takeWhile_append_cons {z : Char} (hz : z ∈ text) :
    ∃ post, text = text.takeWhile (· != z) ++ z :: post := by
  obtain ⟨x, post, rfl, hx⟩ := List.eq_append_cons_of_mem hz
  exact ⟨post, by rw [takeWhile_append_of_not_mem hx]⟩

/-- What a lazy repetition of every character takes before some character. -/
theorem head_lazy (z : Char) (text : List Char) :
    ((candidates (star false (char fun _ => true)) text).flatMap fun m =>
      (candidates (char (· == z)) m.2).map fun _ => m.1).head? =
      if z ∈ text then some (text.takeWhile (· != z)) else none := by
  induction text with
  | nil => simp [candidates, repetitions]
  | cons c text ih =>
    rw [candidates_star, if_neg Bool.false_ne_true, List.flatMap_cons, List.head?_append]
    by_cases hc : c = z
    · simp [candidates, hc]
    · have hmore : followed ((candidates (char fun _ => true) (c :: text)).filter (·.1 ≠ []))
          (candidates (star false (char fun _ => true))) =
          (candidates (star false (char fun _ => true)) text).map (Match.after [c]) := by
        simp [candidates, followed]
      have hgroup (ways : List Match) :
          ((ways.map (Match.after [c])).flatMap fun m =>
            (candidates (char (· == z)) m.2).map fun _ => m.1) =
          (ways.flatMap fun m => (candidates (char (· == z)) m.2).map fun _ => m.1).map
          (c :: ·) := by
        simp [List.flatMap_map, List.map_flatMap, Match.after]
      simp only [hmore, hgroup, List.head?_map, ih]
      by_cases hz : z ∈ text <;> simp [candidates, hc, hz, Ne.symm hc]

/-- The shortest text between two characters is found behind the first of the opening ones. -/
theorem findGroup_lazy_iff {o z : Char} (hoz : o ≠ z) (inner text : List Char) :
    findGroup (char (· == o)) (star false (char fun _ => true)) (char (· == z)) text = some inner ↔
      ∃ pre post, text = pre ++ o :: inner ++ z :: post ∧ o ∉ pre ∧ z ∉ inner := by
  -- Where it matches, the group ends at the first `z`.
  have hat (c : Char) (text : List Char) :
      groupAt (char (· == o)) (star false (char fun _ => true)) (char (· == z)) (c :: text) =
        if c = o ∧ z ∈ text then some (text.takeWhile (· != z)) else none := by
    rw [groupAt]
    by_cases hc : c = o
    · have hone : candidates (char (· == o)) (c :: text) = [([c], text)] := by simp [candidates, hc]
      rw [hone, List.flatMap_cons, List.flatMap_nil, List.append_nil, head_lazy]
      simp [hc]
    · simp [candidates, hc]
  induction text with
  | nil => simp [findGroup, groupAt, candidates]
  | cons c text ih =>
    rw [findGroup, hat]
    split
    · next h =>
      obtain ⟨rfl, hz⟩ := h
      rw [Option.some_or, Option.some_inj]
      constructor
      · rintro rfl
        obtain ⟨post, hpost⟩ := takeWhile_append_cons hz
        exact ⟨[], post, by rw [List.nil_append, List.cons_append, ← hpost], by simp,
          fun h => by simpa using List.mem_takeWhile_imp h⟩
      · rintro ⟨pre, post, heq, hpre, hinner⟩
        -- The first `o` of the text is the one at its beginning.
        obtain rfl : pre = [] := by
          cases pre with
          | nil => rfl
          | cons d pre =>
            rw [List.cons_append, List.cons_append, List.cons.injEq] at heq
            exact absurd (heq.1 ▸ List.mem_cons_self) hpre
        rw [List.nil_append, List.cons_append, List.cons.injEq] at heq
        rw [heq.2, takeWhile_append_of_not_mem hinner]
    · next h =>
      refine Iff.trans (by rw [Option.none_or]) (ih.trans ?_)
      constructor
      · rintro ⟨pre, post, rfl, hpre, hinner⟩
        refine ⟨c :: pre, post, rfl, ?_, hinner⟩
        rw [List.mem_cons, not_or]
        exact ⟨fun hc => h ⟨hc.symm, by simp⟩, hpre⟩
      · rintro ⟨pre, post, heq, hpre, hinner⟩
        cases pre with
        | nil =>
          rw [List.nil_append, List.cons_append, List.cons.injEq] at heq
          exact absurd ⟨heq.1, by simp [heq.2]⟩ h
        | cons d pre =>
          rw [List.cons_append, List.cons_append, List.cons.injEq] at heq
          exact ⟨pre, post, heq.2, fun h => hpre (List.mem_cons_of_mem d h), hinner⟩

end

end Regex

end Text
