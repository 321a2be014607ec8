import Mathlib.Data.Nat.Log
import PqcIot.Effects.Bytes

/-!
# Definite lengths

Tag-length-value encodings with the distinguished form of a length: one octet below 128, and
otherwise the number of octets, with the top bit set, before the fewest octets that spell it
(`lengthOctets`). A length that would need more than 126 octets has no encoding.
-/

namespace Effects

namespace Der

/-- The fewest octets that spell a positive number. -/
def width (n : ℕ) : ℕ := Nat.log 256 n + 1

theorem lt_pow_width (n : ℕ) : n < 256 ^ width n :=
  Nat.lt_pow_succ_log_self (by decide) n

theorem width_eq {n k : ℕ} (hlow : 256 ^ k ≤ n) (hhigh : n < 256 ^ (k + 1)) : width n = k + 1 :=
  congrArg (· + 1) (Nat.log_eq_of_pow_le_of_lt_pow hlow hhigh)

/-- The octets of a length, in short or in long form. -/
def lengthOctets (n : ℕ) : Option (List UInt8) :=
  if n < 128 then
    some [UInt8.ofNat n]
  else if width n ≤ 126 then
    some (UInt8.ofNat (128 + width n) :: beBytes (width n) n)
  else
    none

/-- A length is in short form, or in long form with so many octets. -/
theorem lengthOctets_cases {n : ℕ} {octets : List UInt8} (h : lengthOctets n = some octets) :
    (n < 128 ∧ octets = [UInt8.ofNat n]) ∨
      (128 ≤ n ∧ width n ≤ 126 ∧ octets = UInt8.ofNat (128 + width n) :: beBytes (width n) n) := by
  rw [lengthOctets] at h
  split at h
  · exact .inl ⟨‹_›, (Option.some.inj h).symm⟩
  · split at h
    · exact .inr ⟨Nat.not_lt.mp ‹_›, ‹_›, (Option.some.inj h).symm⟩
    · cases h

/-- Between 256 and 65535, a length is in long form with two octets. -/
theorem lengthOctets_of_width_two {n : ℕ} (hlow : 256 ≤ n) (hhigh : n < 65536) :
    lengthOctets n = some (0x82 :: beBytes 2 n) := by
  have hwidth : width n = 2 := width_eq (k := 1) hlow hhigh
  rw [lengthOctets, if_neg (by omega), hwidth, if_pos (by decide)]
  rfl

/-- Tag, length, contents. -/
def tlv (tag : UInt8) (contents : List UInt8) : Option (List UInt8) :=
  (lengthOctets contents.length).map fun octets => tag :: octets ++ contents

theorem tlv_eq_some {tag : UInt8} {contents bytes : List UInt8}
    (h : tlv tag contents = some bytes) :
    ∃ octets, lengthOctets contents.length = some octets ∧ bytes = tag :: octets ++ contents := by
  obtain ⟨octets, hoctets, rfl⟩ := Option.map_eq_some_iff.mp h
  exact ⟨octets, hoctets, rfl⟩

/-- The length of an encoding whose length needs two octets. -/
theorem length_tlv_of_width_two {tag : UInt8} {contents bytes : List UInt8}
    (h : tlv tag contents = some bytes) (hlow : 256 ≤ contents.length)
    (hhigh : contents.length < 65536) : bytes.length = contents.length + 4 := by
  obtain ⟨octets, hoctets, rfl⟩ := tlv_eq_some h
  rw [lengthOctets_of_width_two hlow hhigh] at hoctets
  cases hoctets
  simp only [List.length_append, List.length_cons, length_beBytes]
  omega

/-- A subject public key info: an algorithm identifier with the given body, and the key as a bit
string without unused bits. -/
def spki (algorithm raw : List UInt8) : Option (List UInt8) := do
  let identifier ← tlv 0x30 algorithm
  let key ← tlv 0x03 (0 :: raw)
  tlv 0x30 (identifier ++ key)

end Der

end Effects
