import PqcIot.Text.Lines

/-!
# Reading UTF-8 with replacement

`bytes.decode("utf-8", "replace")` of Python: each maximal part of the bytes that is not UTF-8
becomes one U+FFFD. ASCII survives it (`infix_decodeReplace`): an ASCII text is a part of what is
decoded exactly if its bytes are a part of what was read.
-/

namespace Text

/-! ## Decoding -/

/-- A sequence that has begun: how many bytes are owed, the bounds of the next one and the bits that
have been read. -/
structure Pending where
  owed : ℕ
  low : UInt8
  high : UInt8
  bits : ℕ
  /-- The next byte is not ASCII. -/
  low_ge : 0x80 ≤ low

/-- U+FFFD. -/
def replacement : Char := Char.ofNat 0xFFFD

/-- The character of an ASCII byte. -/
def asciiChar (b : UInt8) : Char := Char.ofNat b.toNat

/-- The first byte of a longer sequence. -/
def lead (b : UInt8) : Option Pending :=
  if 0xC2 ≤ b ∧ b ≤ 0xDF then some ⟨1, 0x80, 0xBF, b.toNat - 0xC0, by decide⟩
  else if b = 0xE0 then some ⟨2, 0xA0, 0xBF, 0, by decide⟩
  else if b = 0xED then some ⟨2, 0x80, 0x9F, 0xD, by decide⟩
  else if 0xE1 ≤ b ∧ b ≤ 0xEF then some ⟨2, 0x80, 0xBF, b.toNat - 0xE0, by decide⟩
  else if b = 0xF0 then some ⟨3, 0x90, 0xBF, 0, by decide⟩
  else if 0xF1 ≤ b ∧ b ≤ 0xF3 then some ⟨3, 0x80, 0xBF, b.toNat - 0xF0, by decide⟩
  else if b = 0xF4 then some ⟨3, 0x80, 0x8F, 4, by decide⟩
  else none

/-- The character of a complete sequence, of at least two bytes. -/
def scalar (n : ℕ) : Char := if 0x80 ≤ n ∧ n.isValidChar then Char.ofNat n else replacement

/-- A byte between sequences: what it gives, and the sequence that it begins. -/
def start (b : UInt8) : List Char × Option Pending :=
  if b < 0x80 then ([asciiChar b], none)
  else match lead b with
    | some p => ([], some p)
    | none => ([replacement], none)

/-- A byte. One that does not continue a sequence ends it, and is looked at again. -/
def decodeStep : Option Pending → UInt8 → List Char × Option Pending
  | none, b => start b
  | some p, b =>
    if p.low ≤ b ∧ b ≤ p.high then
      let bits := p.bits * 64 + (b.toNat - 0x80)
      if p.owed = 1 then ([scalar bits], none)
      else ([], some ⟨p.owed - 1, 0x80, 0xBF, bits, by decide⟩)
    else (replacement :: (start b).1, (start b).2)

/-- `decode`, inside a sequence or between two. -/
def decodeFrom : Option Pending → List UInt8 → List Char
  | none, [] => []
  | some _, [] => [replacement]
  | st, b :: rest => (decodeStep st b).1 ++ decodeFrom (decodeStep st b).2 rest

/-- `bytes.decode("utf-8", "replace")`. -/
def decodeReplace (bytes : List UInt8) : List Char := decodeFrom none bytes

/-! ## ASCII survives -/

/-- A text of ASCII characters. -/
def Ascii (m : List UInt8) : Prop := ∀ b ∈ m, b < 0x80

theorem toNat_ofNat {n : ℕ} (hn : n.isValidChar) : (Char.ofNat n).toNat = n := by
  rw [Char.ofNat, dif_pos hn]
  rfl

theorem toNat_asciiChar {b : UInt8} (hb : b < 0x80) : (asciiChar b).toNat = b.toNat := by
  have hlt : b.toNat < 0x80 := UInt8.lt_iff_toNat_lt.mp hb
  exact toNat_ofNat (.inl (by omega))

theorem asciiChar_inj {a b : UInt8} (ha : a < 0x80) (hb : b < 0x80) :
    asciiChar a = asciiChar b ↔ a = b := by
  refine ⟨fun h => UInt8.toNat_inj.mp ?_, congrArg asciiChar⟩
  rw [← toNat_asciiChar ha, h, toNat_asciiChar hb]

/-- Nothing else becomes an ASCII character. -/
theorem asciiChar_ne {a : UInt8} (ha : a < 0x80) {c : Char} (hc : 0x80 ≤ c.toNat) :
    asciiChar a ≠ c := by
  rintro rfl
  have hlt : a.toNat < 0x80 := UInt8.lt_iff_toNat_lt.mp ha
  rw [toNat_asciiChar ha] at hc
  omega

theorem le_toNat_replacement : 0x80 ≤ replacement.toNat := by decide

theorem le_toNat_scalar (n : ℕ) : 0x80 ≤ (scalar n).toNat := by
  rw [scalar]
  split
  · rw [toNat_ofNat (by tauto)]
    tauto
  · exact le_toNat_replacement

/-- An ASCII byte ends a sequence that has begun. -/
theorem decodeStep_ascii (st : Option Pending) {b : UInt8} (hb : b < 0x80) :
    ∃ flushed, (∀ c ∈ flushed, 0x80 ≤ c.toNat) ∧
      decodeStep st b = (flushed ++ [asciiChar b], none) := by
  have hstart : start b = ([asciiChar b], none) := if_pos hb
  cases st with
  | none => exact ⟨[], nofun, hstart⟩
  | some p =>
    have hlow : ¬ (p.low ≤ b ∧ b ≤ p.high) := fun h =>
      absurd (UInt8.lt_of_lt_of_le hb p.low_ge) (UInt8.not_lt.mpr h.1)
    refine ⟨[replacement], fun c hc => ?_, ?_⟩
    · rw [List.mem_singleton.mp hc]
      exact le_toNat_replacement
    · rw [decodeStep, if_neg hlow, hstart]
      rfl

theorem start_not_ascii {b : UInt8} (hb : ¬ b < 0x80) : ∀ c ∈ (start b).1, 0x80 ≤ c.toNat := by
  rw [start, if_neg hb]
  split
  · exact nofun
  · intro c hc
    rw [List.mem_singleton.mp hc]
    exact le_toNat_replacement

/-- No other byte gives an ASCII character. -/
theorem decodeStep_not_ascii (st : Option Pending) {b : UInt8} (hb : ¬ b < 0x80) :
    ∀ c ∈ (decodeStep st b).1, 0x80 ≤ c.toNat := by
  cases st with
  | none => exact start_not_ascii hb
  | some p =>
    rw [decodeStep]
    split
    · dsimp only
      split
      · intro c hc
        rw [List.mem_singleton.mp hc]
        exact le_toNat_scalar _
      · exact nofun
    · rintro c (_ | ⟨_, hc⟩)
      · exact le_toNat_replacement
      · exact start_not_ascii hb c hc

section Marker

variable {a : UInt8} {m : List UInt8}

/-- An ASCII text does not begin with other characters. -/
theorem infix_append_of_not_ascii (ha : a < 0x80) {l₁ l₂ : List Char}
    (hl₁ : ∀ c ∈ l₁, 0x80 ≤ c.toNat) :
    ((a :: m).map asciiChar) <:+: l₁ ++ l₂ ↔ ((a :: m).map asciiChar) <:+: l₂ := by
  induction l₁ with
  | nil => rfl
  | cons c l₁ ih =>
    rw [List.cons_append, List.map_cons,
      infix_cons_of_ne (asciiChar_ne ha (hl₁ c List.mem_cons_self)), ← List.map_cons,
      ih fun c' hc' => hl₁ c' (List.mem_cons_of_mem c hc')]

/-- A byte in a sequence continues it, or gives a character that is not ASCII first. -/
theorem decodeStep_some (p : Pending) (b : UInt8) :
    (∃ p', decodeStep (some p) b = ([], some p')) ∨
      ∃ c l st, decodeStep (some p) b = (c :: l, st) ∧ 0x80 ≤ c.toNat := by
  rw [decodeStep]
  split
  · dsimp only
    split
    · exact .inr ⟨_, _, _, rfl, le_toNat_scalar _⟩
    · exact .inl ⟨_, rfl⟩
  · exact .inr ⟨_, _, _, rfl, le_toNat_replacement⟩

/-- So nothing ASCII comes next. -/
theorem not_prefix_decodeFrom (ha : a < 0x80) (bytes : List UInt8) (p : Pending) :
    ¬ ((a :: m).map asciiChar) <+: decodeFrom (some p) bytes := by
  induction bytes generalizing p with
  | nil =>
    rw [decodeFrom, List.map_cons, List.cons_prefix_cons]
    exact fun h => asciiChar_ne ha le_toNat_replacement h.1
  | cons b bytes ih =>
    rw [decodeFrom]
    rcases decodeStep_some p b with ⟨p', hp'⟩ | ⟨c, l, st, hst, hc⟩
    · rw [hp']
      exact ih p'
    · rw [hst, List.cons_append, List.map_cons, List.cons_prefix_cons]
      exact fun h => asciiChar_ne ha hc h.1

/-- Between sequences, an ASCII text comes next if its bytes do. -/
theorem prefix_decodeFrom (hm : Ascii m) (bytes : List UInt8) :
    m.map asciiChar <+: decodeFrom none bytes ↔ m <+: bytes := by
  induction bytes generalizing m with
  | nil => simp [decodeFrom]
  | cons b bytes ih =>
    cases m with
    | nil => simp
    | cons a m =>
      have ha : a < 0x80 := hm a List.mem_cons_self
      rw [decodeFrom, List.cons_prefix_cons]
      by_cases hb : b < 0x80
      · have hstep : decodeStep none b = ([asciiChar b], none) := if_pos hb
        rw [hstep, List.singleton_append, List.map_cons, List.cons_prefix_cons, asciiChar_inj ha hb,
          ih fun c hc => hm c (List.mem_cons_of_mem a hc)]
      · refine iff_of_false (fun h => ?_) fun h => hb (h.1 ▸ ha)
        have hstep : decodeStep none b = match lead b with
            | some p => ([], some p)
            | none => ([replacement], none) := if_neg hb
        rw [hstep] at h
        split at h
        · exact not_prefix_decodeFrom ha bytes _ h
        · rw [List.singleton_append, List.map_cons, List.cons_prefix_cons] at h
          exact asciiChar_ne ha le_toNat_replacement h.1

theorem infix_decodeFrom (hm : Ascii (a :: m)) (st : Option Pending) (bytes : List UInt8) :
    (a :: m).map asciiChar <:+: decodeFrom st bytes ↔ (a :: m) <:+: bytes := by
  have ha : a < 0x80 := hm a List.mem_cons_self
  induction bytes generalizing st with
  | nil =>
    have hempty : ¬ (a :: m) <:+: [] := by simp
    refine iff_of_false (fun h => ?_) hempty
    cases st with
    | none => simp [decodeFrom] at h
    | some p =>
      rw [decodeFrom, List.map_cons, infix_cons_of_ne (asciiChar_ne ha le_toNat_replacement)] at h
      simp at h
  | cons b bytes ih =>
    rw [decodeFrom]
    by_cases hb : b < 0x80
    · obtain ⟨flushed, hflushed, hstep⟩ := decodeStep_ascii st hb
      rw [hstep, List.append_assoc, infix_append_of_not_ascii ha hflushed, List.singleton_append,
        List.infix_cons_iff, List.infix_cons_iff]
      -- At this byte the text comes next, or it comes later.
      refine or_congr ?_ (ih none)
      rw [List.map_cons, List.cons_prefix_cons, asciiChar_inj ha hb,
        prefix_decodeFrom fun c hc => hm c (List.mem_cons_of_mem a hc), List.cons_prefix_cons]
    · have hab : a ≠ b := fun hab => hb (hab ▸ ha)
      rw [infix_append_of_not_ascii ha (decodeStep_not_ascii st hb), infix_cons_of_ne hab]
      exact ih _

end Marker

/-- An ASCII text is a part of what is decoded exactly if its bytes are a part of what was read. -/
theorem infix_decodeReplace {m : List UInt8} (hm : Ascii m) (bytes : List UInt8) :
    m.map asciiChar <:+: decodeReplace bytes ↔ m <:+: bytes := by
  cases m with
  | nil => simp
  | cons a m => exact infix_decodeFrom hm none bytes

end Text
