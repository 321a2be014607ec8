import Mathlib.Data.UInt
import Mathlib.Tactic.IntervalCases
import PqcIot.Text.Lines

/-!
# Hexadecimal strings

Python strings as lists of code points, which may be lone surrogates, and the conversions between
bytes and hexadecimal digits. `fromhex` reads several spellings of the same bytes: digits of either
case, with white space between the bytes.
-/

namespace Text

/-- A code point of a string. -/
inductive CodePoint where
  | char (c : Char)
  /-- U+D800 and the following ones, which stand for no character. -/
  | surrogate (n : Fin 0x800)
  deriving DecidableEq, Repr

/-- A string. -/
abbrev Str : Type := List CodePoint

/-- The string of some characters. -/
def ofChars (chars : List Char) : Str := chars.map .char

/-- The value of a hexadecimal digit. -/
def digitValue (c : Char) : Option ℕ :=
  if '0' ≤ c ∧ c ≤ '9' then some (c.toNat - '0'.toNat)
  else if 'a' ≤ c ∧ c ≤ 'f' then some (c.toNat - 'a'.toNat + 10)
  else if 'A' ≤ c ∧ c ≤ 'F' then some (c.toNat - 'A'.toNat + 10)
  else none

/-- The hexadecimal digits. -/
def digits : List Char := "0123456789abcdefABCDEF".toList

/-- Only the digits have a value. -/
theorem mem_digits {c : Char} {n : ℕ} (h : digitValue c = some n) : c ∈ digits := by
  have hrange : (48 ≤ c.toNat ∧ c.toNat ≤ 57) ∨ (97 ≤ c.toNat ∧ c.toNat ≤ 102) ∨
      (65 ≤ c.toNat ∧ c.toNat ≤ 70) := by
    simp only [digitValue, Char.le_def, UInt32.le_iff_toNat_le] at h
    simp only [Char.toNat]
    split_ifs at h with h1 h2 h3
    · exact .inl h1
    · exact .inr (.inl h2)
    · exact .inr (.inr h3)
  rw [← Char.ofNat_toNat c]
  generalize c.toNat = k at hrange
  rcases hrange with ⟨h1, h2⟩ | ⟨h1, h2⟩ | ⟨h1, h2⟩ <;> interval_cases k <;> decide

/-- A digit is less than 16. -/
theorem digitValue_lt {c : Char} {n : ℕ} (h : digitValue c = some n) : n < 16 := by
  have hall : ∀ c ∈ digits, ∀ n ∈ digitValue c, n < 16 := forall_mem_of_all (by decide)
  exact hall c (mem_digits h) n h

/-- The number with these digits. -/
def numeral (base : ℕ) (chars : List Char) : Option ℕ :=
  if chars = [] then none
  else chars.foldlM (fun n c => (digitValue c).bind fun d =>
    if d < base then some (n * base + d) else none) 0

/-- Every character of a number is a digit of its base. -/
theorem mem_of_numeral {base n : ℕ} {chars : List Char} (h : numeral base chars = some n) :
    ∀ c ∈ chars, ∃ d, digitValue c = some d ∧ d < base := by
  rw [numeral] at h
  split at h
  · cases h
  · generalize 0 = start at h
    clear * - h
    induction chars generalizing start with
    | nil => simp
    | cons c chars ih =>
      rw [List.foldlM_cons, Option.bind_eq_bind, Option.bind_eq_some_iff] at h
      obtain ⟨next, hnext, hrest⟩ := h
      obtain ⟨d, hd, hlt⟩ := Option.bind_eq_some_iff.mp hnext
      rw [List.forall_mem_cons]
      refine ⟨⟨d, hd, ?_⟩, ih next hrest⟩
      by_contra hge
      rw [if_neg hge] at hlt
      cases hlt

/-- Only zeros denote zero. -/
theorem numeral_eq_zero_iff {base : ℕ} (hbase : 0 < base) {chars : List Char} (hne : chars ≠ []) :
    numeral base chars = some 0 ↔ ∀ c ∈ chars, digitValue c = some 0 := by
  rw [numeral, if_neg hne]
  -- For any number before, as the induction is over the digits behind it.
  have hfold (start : ℕ) : chars.foldlM (fun n c => (digitValue c).bind fun d =>
      if d < base then some (n * base + d) else none) start = some 0 ↔
      start = 0 ∧ ∀ c ∈ chars, digitValue c = some 0 := by
    clear hne
    induction chars generalizing start with
    | nil => simp
    | cons c chars ih =>
      rw [List.foldlM_cons, Option.bind_eq_bind, Option.bind_eq_some_iff, List.forall_mem_cons]
      constructor
      · rintro ⟨next, hnext, hrest⟩
        obtain ⟨d, hd, hlt⟩ := Option.bind_eq_some_iff.mp hnext
        obtain ⟨hzero, hchars⟩ := (ih next).mp hrest
        split at hlt
        · obtain ⟨hstart, hd0⟩ : start * base = 0 ∧ d = 0 := by
            have hsum := Option.some.inj hlt
            omega
          have hstart : start = 0 := (Nat.mul_eq_zero.mp hstart).resolve_right hbase.ne'
          exact ⟨hstart, by rw [hd, hd0], hchars⟩
        · cases hlt
      · rintro ⟨rfl, hc, hchars⟩
        exact ⟨0, by simp [hc, hbase], (ih 0).mpr ⟨rfl, hchars⟩⟩
  rw [hfold]
  exact and_iff_right rfl

/-- The digit of a value, in lower case. -/
def digitChar (n : ℕ) : Char := "0123456789abcdef".toList.getD n '0'

/-- ASCII white space. -/
def isSpace (c : Char) : Bool :=
  c = ' ' || c = '\t' || c = '\n' || c = '\r' || c = '\x0b' || c = '\x0c'

/-- The value of a code point that is a hexadecimal digit. -/
def CodePoint.digitValue : CodePoint → Option ℕ
  | .char c => Text.digitValue c
  | .surrogate _ => none

/-- Whether a code point is ASCII white space. -/
def CodePoint.isSpace : CodePoint → Bool
  | .char c => Text.isSpace c
  | .surrogate _ => false

/-- `bytes.fromhex`; `none` where it raises `ValueError`. -/
def fromhex : Str → Option (List UInt8)
  | [] => some []
  | c :: rest =>
    if c.isSpace then
      fromhex rest
    else
      match rest with
      | [] => none
      | d :: rest => do
        let high ← c.digitValue
        let low ← d.digitValue
        let bytes ← fromhex rest
        return UInt8.ofNat (16 * high + low) :: bytes

/-- `bytes.hex`, as characters. -/
def hexChars (bytes : List UInt8) : List Char :=
  bytes.flatMap fun b => [digitChar (b.toNat / 16), digitChar (b.toNat % 16)]

/-- `bytes.hex`. -/
def hex (bytes : List UInt8) : Str := ofChars (hexChars bytes)

/-- White space between the pairs is skipped. -/
theorem fromhex_space {c : CodePoint} {rest : Str} (h : c.isSpace = true) :
    fromhex (c :: rest) = fromhex rest := by
  cases rest <;> simp [fromhex, h]

/-- Two digits are a byte. -/
theorem fromhex_pair {c d : CodePoint} {rest : Str} (h : ¬ c.isSpace = true) :
    fromhex (c :: d :: rest) = c.digitValue.bind fun high => d.digitValue.bind fun low =>
      (fromhex rest).map fun bytes => UInt8.ofNat (16 * high + low) :: bytes := by
  rw [fromhex, if_neg h]
  simp only [Option.bind_eq_bind, Option.map_eq_bind]
  rfl

/-- Each digit reads back as its value. -/
theorem digitValue_digitChar {n : ℕ} (hn : n < 16) : digitValue (digitChar n) = some n := by
  interval_cases n <;> rfl

/-- A digit is no white space. -/
theorem isSpace_digitChar {n : ℕ} (hn : n < 16) : isSpace (digitChar n) = false := by
  interval_cases n <;> rfl

@[simp]
theorem hex_nil : hex [] = [] := rfl

/-- The digits of the first byte come first. -/
theorem hex_cons (b : UInt8) (bytes : List UInt8) : hex (b :: bytes) =
    .char (digitChar (b.toNat / 16)) :: .char (digitChar (b.toNat % 16)) :: hex bytes := rfl

/-- The digits of bytes read back as the bytes. -/
@[simp]
theorem fromhex_hex (bytes : List UInt8) : fromhex (hex bytes) = some bytes := by
  induction bytes with
  | nil => rfl
  | cons b bytes ih =>
    have hlt : b.toNat < 256 := b.toNat_lt
    have hhigh : b.toNat / 16 < 16 := by omega
    have hlow : b.toNat % 16 < 16 := Nat.mod_lt _ (by decide)
    have hbyte : UInt8.ofNat (16 * (b.toNat / 16) + b.toNat % 16) = b := by
      rw [Nat.div_add_mod, UInt8.ofNat_toNat]
    have hspace : ¬ (CodePoint.char (digitChar (b.toNat / 16))).isSpace = true := by
      simp [CodePoint.isSpace, isSpace_digitChar hhigh]
    rw [hex_cons, fromhex_pair hspace, CodePoint.digitValue, CodePoint.digitValue,
      digitValue_digitChar hhigh, digitValue_digitChar hlow, ih]
    exact congrArg (fun b => some (b :: bytes)) hbyte

/-- What `fromhex` reads are characters. -/
theorem exists_chars_of_fromhex {s : Str} {bytes : List UInt8} (h : fromhex s = some bytes) :
    ∃ chars, s = ofChars chars := by
  induction s using fromhex.induct generalizing bytes with
  | case1 => exact ⟨[], rfl⟩
  | case2 c rest hspace ih =>
    rw [fromhex_space hspace] at h
    obtain ⟨chars, rfl⟩ := ih h
    match c, hspace with
    | .char c, _ => exact ⟨c :: chars, rfl⟩
  | case3 c hspace =>
    simp [fromhex, hspace] at h
  | case4 c hspace d rest ih =>
    rw [fromhex_pair hspace, Option.bind_eq_some_iff] at h
    obtain ⟨high, hhigh, h⟩ := h
    obtain ⟨low, hlow, h⟩ := Option.bind_eq_some_iff.mp h
    obtain ⟨bytes', hbytes', -⟩ := Option.map_eq_some_iff.mp h
    obtain ⟨chars, rfl⟩ := ih hbytes'
    match c, d, hhigh, hlow with
    | .char c, .char d, _, _ => exact ⟨c :: d :: chars, rfl⟩

end Text
